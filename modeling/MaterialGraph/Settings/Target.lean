/-!
How the declarations of a shader module are laid out.
-/

set_option autoImplicit false

namespace MaterialGraph

structure TargetSettings where
  bindGroup : UInt32
  uniformStruct : String
  uniformBinding : String
  /-- Composite values used more often than this are bound to locals. -/
  shareThreshold : UInt32
deriving DecidableEq, Repr

namespace TargetSettings

def standard : TargetSettings := ⟨1, "MaterialParams", "material", 1⟩

instance : Inhabited TargetSettings := ⟨standard⟩

end TargetSettings

end MaterialGraph
