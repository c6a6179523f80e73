import Mathlib.Data.List.Forall2
import Mathlib.Data.List.Induction
import Mathlib.Data.List.Nodup
import Mathlib.Data.List.Perm.Subperm

/-!
Facts about lists that the theory of graphs uses: counting, look-up by a key that occurs once,
lists related member by member, first occurrences, folds that may fail, and steps in a row.
-/

set_option autoImplicit false

namespace MaterialGraph

theorem countP_add_countP_of_disjoint {Item : Type} (left right : Item → Bool) (items : List Item)
    (disjoint : ∀ item ∈ items, left item = true → right item = false) :
    items.countP left + items.countP right =
      items.countP fun item => left item || right item := by
  induction items with
  | nil => rfl
  | cons first rest ih =>
      have later := ih fun item member => disjoint item (List.mem_cons_of_mem _ member)
      have here := disjoint first List.mem_cons_self
      simp only [List.countP_cons]
      cases atLeft : left first <;> cases atRight : right first <;> simp_all <;> omega

theorem find?_key_of_mem {Item Key : Type} [DecidableEq Key] {key : Item → Key} {items : List Item}
    (distinct : (items.map key).Nodup) {item : Item} (member : item ∈ items) :
    items.find? (fun other => key other = key item) = some item := by
  induction items with
  | nil => simp at member
  | cons first rest ih =>
      rw [List.map_cons, List.nodup_cons] at distinct
      rcases List.mem_cons.1 member with same | later
      · subst same
        simp
      · have different : ¬key first = key item := by
          intro same
          exact distinct.1 (same ▸ List.mem_map_of_mem later)
        rw [List.find?_cons_of_neg (by simpa using different)]
        exact ih distinct.2 later

theorem exists_related_of_mem {Left Right : Type} {related : Left → Right → Prop}
    {lefts : List Left} {rights : List Right} (pairs : List.Forall₂ related lefts rights)
    {left : Left} (member : left ∈ lefts) : ∃ right ∈ rights, related left right := by
  induction pairs with
  | nil => simp at member
  | cons first rest ih =>
      rcases List.mem_cons.1 member with here | later
      · exact ⟨_, List.mem_cons_self, here ▸ first⟩
      · obtain ⟨right, rightMember, holds⟩ := ih later
        exact ⟨right, List.mem_cons_of_mem _ rightMember, holds⟩

theorem exists_getElem?_of_forall₂ {Left Right : Type} {related : Left → Right → Prop}
    {lefts : List Left} {rights : List Right} (pairs : List.Forall₂ related lefts rights)
    {position : Nat} {left : Left} (found : lefts[position]? = some left) :
    ∃ right, rights[position]? = some right ∧ related left right := by
  induction pairs generalizing position with
  | nil => simp at found
  | cons first _ ih =>
      cases position with
      | zero =>
          cases found
          exact ⟨_, rfl, first⟩
      | succ position => exact ih found

theorem forall₂_trans {Left Middle Right : Type} {first : Left → Middle → Prop}
    {second : Middle → Right → Prop} {lefts : List Left} {middles : List Middle}
    {rights : List Right} (early : List.Forall₂ first lefts middles)
    (late : List.Forall₂ second middles rights) :
    List.Forall₂ (fun left right => ∃ middle, first left middle ∧ second middle right)
      lefts rights := by
  induction early generalizing rights with
  | nil =>
      cases late
      exact List.Forall₂.nil
  | cons here _ ih =>
      cases late with
      | cons there rest => exact List.Forall₂.cons ⟨_, here, there⟩ (ih rest)

theorem map_eq_map_iff_forall₂ {Left Right Key : Type} {leftKey : Left → Key}
    {rightKey : Right → Key} {lefts : List Left} {rights : List Right} :
    lefts.map leftKey = rights.map rightKey ↔
      List.Forall₂ (fun left right => leftKey left = rightKey right) lefts rights := by
  rw [← List.forall₂_eq_eq_eq, List.forall₂_map_left_iff, List.forall₂_map_right_iff]

theorem forall₂_of_zip {Left Right Key : Type} {leftKey : Left → Key} {rightKey : Right → Key}
    {related : Left → Right → Prop} {lefts : List Left} {rights : List Right}
    (keys : rights.map rightKey = lefts.map leftKey)
    (pairs : ∀ left right, (left, right) ∈ lefts.zip rights → related left right) :
    List.Forall₂ related lefts rights := by
  have sizes := congrArg List.length keys
  rw [List.length_map, List.length_map] at sizes
  exact List.forall₂_iff_zip.2 ⟨sizes.symm, fun {left right} pair => pairs left right pair⟩

theorem map_eq_self_iff {Item : Type} {change : Item → Item} {items : List Item} :
    items.map change = items ↔ ∀ item ∈ items, change item = item := by
  have same := @List.map_inj_left Item Item items change id
  rw [List.map_id] at same
  exact same

theorem mapM_congr {Item Result : Type} {Effect : Type → Type} [Monad Effect]
    [LawfulMonad Effect] {left right : Item → Effect Result} {items : List Item}
    (same : ∀ item ∈ items, left item = right item) : items.mapM left = items.mapM right := by
  induction items with
  | nil => rfl
  | cons first rest ih =>
      rw [List.mapM_cons, List.mapM_cons, same first List.mem_cons_self,
        ih fun item member => same item (List.mem_cons_of_mem _ member)]

theorem exists_mapM_eq_some {Item Other Value : Type} {step : Item → Option Value}
    {related : Other → Value → Prop} {items : List Item} {others : List Other}
    (pairs : List.Forall₂ (fun item other => ∃ value, step item = some value ∧ related other value)
      items others) :
    ∃ values, items.mapM step = some values ∧ List.Forall₂ related others values := by
  induction pairs with
  | nil => exact ⟨[], rfl, List.Forall₂.nil⟩
  | cons first _ ih =>
      obtain ⟨value, given, holds⟩ := first
      obtain ⟨values, givenRest, holdsRest⟩ := ih
      refine ⟨value :: values, ?_, List.Forall₂.cons holds holdsRest⟩
      rw [List.mapM_cons, given, givenRest]
      rfl

theorem mapM_eq_some_of_forall₂ {Item Value : Type} {step : Item → Option Value}
    {items : List Item} {values : List Value}
    (pairs : List.Forall₂ (fun item value => step item = some value) items values) :
    items.mapM step = some values := by
  induction pairs with
  | nil => rfl
  | cons first _ ih =>
      rw [List.mapM_cons, first, ih]
      rfl

theorem forall₂_filterMap_id {Item Value : Type} {related : Item → Value → Prop}
    {items : List Item} {values : List (Option Value)}
    (pairs : List.Forall₂ (fun item value => ∃ found, value = some found ∧ related item found)
      items values) : List.Forall₂ related items (values.filterMap id) := by
  induction pairs with
  | nil => exact List.Forall₂.nil
  | cons first _ ih =>
      rcases first with ⟨found, rfl, holds⟩
      exact List.Forall₂.cons holds ih

theorem idxOf_lt_idxOf_of_sublist {Item : Type} [DecidableEq Item] {part items : List Item}
    (sublist : part.Sublist items) (distinct : items.Nodup) {left right : Item}
    (leftMember : left ∈ part) (rightMember : right ∈ part)
    (before : items.idxOf left < items.idxOf right) : part.idxOf left < part.idxOf right := by
  induction sublist with
  | slnil => cases leftMember
  | cons other sublist induction =>
      obtain ⟨absent, distinct⟩ := List.nodup_cons.1 distinct
      have leftOther : other ≠ left := fun same => absent (same ▸ sublist.subset leftMember)
      have rightOther : other ≠ right := fun same => absent (same ▸ sublist.subset rightMember)
      rw [List.idxOf_cons_ne _ leftOther, List.idxOf_cons_ne _ rightOther] at before
      exact induction distinct leftMember rightMember (Nat.lt_of_succ_lt_succ before)
  | cons_cons other sublist induction =>
      obtain ⟨_, distinct⟩ := List.nodup_cons.1 distinct
      have rightOther : other ≠ right := by
        rintro rfl
        rw [List.idxOf_cons_self] at before
        exact Nat.not_lt_zero _ before
      rw [List.idxOf_cons_ne _ rightOther] at before ⊢
      by_cases here : other = left
      · subst here
        rw [List.idxOf_cons_self]
        exact Nat.succ_pos _
      · rw [List.idxOf_cons_ne _ here] at before ⊢
        have leftLater := List.mem_of_ne_of_mem (Ne.symm here) leftMember
        have rightLater := List.mem_of_ne_of_mem (Ne.symm rightOther) rightMember
        exact Nat.succ_lt_succ
          (induction distinct leftLater rightLater (Nat.lt_of_succ_lt_succ before))

/-- What every step of a fold keeps, about the items taken so far, holds at the end of all. -/
theorem foldlM_run {State Item Error : Type} {step : State → Item → Except Error State}
    (Invariant : List Item → State → Prop)
    (keeps : ∀ taken state item next, Invariant taken state → step state item = .ok next →
      Invariant (taken ++ [item]) next)
    (taken : List Item) {items : List Item} {first last : State} (holds : Invariant taken first)
    (run : items.foldlM step first = .ok last) : Invariant (taken ++ items) last := by
  induction items generalizing taken first with
  | nil =>
      cases run
      simpa using holds
  | cons item rest ih =>
      rw [List.foldlM_cons] at run
      cases outcome : step first item with
      | error error =>
          rw [outcome] at run
          cases run
      | ok next =>
          rw [outcome] at run
          simpa using ih (taken ++ [item]) (keeps taken first item next holds outcome) run

/-- Two folds whose steps fail together or keep a relation between their states. -/
theorem foldlM_in_step {State Other Item Error : Type} {step : State → Item → Except Error State}
    {other : Other → Item → Except Error Other} {Related : State → Other → Prop}
    (keeps : ∀ left right, Related left right → ∀ item,
      (∃ error, step left item = .error error ∧ other right item = .error error) ∨
        ∃ next last, step left item = .ok next ∧ other right item = .ok last ∧ Related next last)
    {left : State} {right : Other} (related : Related left right) (items : List Item) :
    (∃ error, items.foldlM step left = .error error ∧ items.foldlM other right = .error error) ∨
      ∃ next last, items.foldlM step left = .ok next ∧ items.foldlM other right = .ok last ∧
        Related next last := by
  induction items generalizing left right with
  | nil => exact Or.inr ⟨left, right, rfl, rfl, related⟩
  | cons item rest ih =>
      rw [List.foldlM_cons, List.foldlM_cons]
      rcases keeps left right related item with
        ⟨error, failed, otherFailed⟩ | ⟨next, last, ran, otherRan, kept⟩
      · rw [failed, otherFailed]
        exact Or.inl ⟨error, rfl, rfl⟩
      · rw [ran, otherRan]
        exact ih kept

theorem subset_foldl {Item : Type} {step : List Item → Item → List Item}
    (grows : ∀ known item, known ⊆ step known item) (items known : List Item) :
    known ⊆ items.foldl step known := by
  induction items generalizing known with
  | nil => exact List.Subset.refl known
  | cons first rest ih => exact List.Subset.trans (grows known first) (ih (step known first))

theorem mem_foldl_of_mem {Item : Type} {step : List Item → Item → List Item}
    (grows : ∀ known item, known ⊆ step known item) {item : Item}
    (adds : ∀ known, item ∈ step known item) {items : List Item} (member : item ∈ items)
    (known : List Item) : item ∈ items.foldl step known := by
  induction items generalizing known with
  | nil => simp at member
  | cons first rest ih =>
      rw [List.foldl_cons]
      rcases List.mem_cons.1 member with same | later
      · subst same
        exact subset_foldl grows rest _ (adds known)
      · exact ih later (step known first)

section Occurrences

variable {Item : Type} [BEq Item] [LawfulBEq Item] {items more : List Item}

theorem eraseDups_append_of_subset (listed : more ⊆ items) :
    (items ++ more).eraseDups = items.eraseDups := by
  have none : more.removeAll items = [] := by
    unfold List.removeAll
    rw [List.filter_eq_nil_iff]
    intro item member
    simpa using listed member
  rw [List.eraseDups_append, none, List.eraseDups_nil, List.append_nil]

theorem eraseDups_snoc_of_notMem {item : Item} (absent : item ∉ items) :
    (items ++ [item]).eraseDups = items.eraseDups ++ [item] := by
  have kept : [item].removeAll items = [item] := by
    unfold List.removeAll
    rw [List.filter_eq_self]
    intro other member
    cases List.mem_singleton.1 member
    simpa using absent
  rw [List.eraseDups_append, kept]
  rfl

theorem nodup_eraseDups (items : List Item) : items.eraseDups.Nodup := by
  induction items using List.reverseRecOn with
  | nil => exact List.nodup_nil
  | append_singleton items item induction =>
      by_cases member : item ∈ items
      · rw [eraseDups_append_of_subset (List.cons_subset.2 ⟨member, List.nil_subset _⟩)]
        exact induction
      · rw [eraseDups_snoc_of_notMem member, List.nodup_append]
        refine ⟨induction, List.nodup_singleton item, ?_⟩
        intro left leftMember right rightMember same
        rw [List.mem_singleton.1 rightMember] at same
        exact member (same ▸ List.mem_eraseDups.1 leftMember)

end Occurrences

section Counts

variable {Item Value : Type} [DecidableEq Value] {parts : Item → List Value} {items : List Item}
  {value : Value}

theorem count_le_count_flatMap (parts : Item → List Value) {item : Item} (listed : item ∈ items)
    (value : Value) :
    (parts item).count value ≤ (items.flatMap parts).count value := by
  obtain ⟨before, after, rfl⟩ := List.append_of_mem listed
  simp only [List.flatMap_append, List.flatMap_cons, List.count_append]
  omega

/-- What occurs once in all parts together occurs in those of one item only. -/
theorem eq_of_count_flatMap_le_one (few : (items.flatMap parts).count value ≤ 1) {left right : Nat}
    {first second : Item} (atLeft : items[left]? = some first) (inFirst : value ∈ parts first)
    (atRight : items[right]? = some second) (inSecond : value ∈ parts second) : left = right := by
  have occurs : ∀ {item : Item} {rest : List Item}, item ∈ rest → value ∈ parts item →
      0 < (rest.flatMap parts).count value := fun listed inside =>
    List.count_pos_iff.2 (List.mem_flatMap.2 ⟨_, listed, inside⟩)
  induction items generalizing left right with
  | nil => cases atLeft
  | cons item rest induction =>
      rw [List.flatMap_cons, List.count_append] at few
      have here : ∀ {other : Item}, item = other → value ∈ parts other →
          0 < (parts item).count value := by
        rintro other rfl inside
        exact List.count_pos_iff.2 inside
      cases left with
      | zero =>
          cases right with
          | zero => rfl
          | succ right =>
              rw [List.getElem?_cons_succ] at atRight
              have first := here (Option.some.inj atLeft) inFirst
              have second := occurs (List.mem_of_getElem? atRight) inSecond
              omega
      | succ left =>
          rw [List.getElem?_cons_succ] at atLeft
          cases right with
          | zero =>
              have first := occurs (List.mem_of_getElem? atLeft) inFirst
              have second := here (Option.some.inj atRight) inSecond
              omega
          | succ right =>
              have later : (rest.flatMap parts).count value ≤ 1 := by omega
              exact congrArg (· + 1) (induction later atLeft atRight)

theorem eq_of_count_le_one {values : List Value} (few : values.count value ≤ 1) {left right : Nat}
    (atLeft : values[left]? = some value) (atRight : values[right]? = some value) :
    left = right := by
  rw [← List.flatMap_singleton' values] at few
  exact eq_of_count_flatMap_le_one few atLeft List.mem_cons_self atRight List.mem_cons_self

theorem count_flatMap_le_one [DecidableEq Item] {only : Item}
    (single : ∀ item ∈ items, value ∈ parts item → item = only) (once : items.count only ≤ 1)
    (few : (parts only).count value ≤ 1) : (items.flatMap parts).count value ≤ 1 := by
  induction items with
  | nil => simp
  | cons item rest induction =>
      rw [List.forall_mem_cons] at single
      rw [List.flatMap_cons, List.count_append]
      by_cases inside : value ∈ parts item
      · obtain rfl := single.1 inside
        rw [List.count_cons_self] at once
        have absent : (rest.flatMap parts).count value = 0 := by
          apply List.count_eq_zero.2
          intro member
          obtain ⟨other, listed, insideOther⟩ := List.mem_flatMap.1 member
          obtain rfl := single.2 other listed insideOther
          have occurs := List.count_pos_iff.2 listed
          omega
        omega
      · rw [List.count_eq_zero.2 inside, Nat.zero_add]
        exact induction single.2 (Nat.le_trans (List.count_le_count_cons) once)

end Counts

section Steps

variable {Error State Value Other : Type} {steps : EStateM Error State Value}
  {rest : Value → EStateM Error State Other} {state next last : State} {value : Value}
  {other : Other}

theorem bind_of_ok (ran : steps state = .ok value next) (rest : Value → EStateM Error State Other) :
    (steps >>= rest) state = rest value next := by
  change EStateM.bind steps rest state = _
  unfold EStateM.bind
  rw [ran]

theorem exists_of_bind_eq_ok (ran : (steps >>= rest) state = .ok other last) :
    ∃ value next, steps state = .ok value next ∧ rest value next = .ok other last := by
  cases first : steps state with
  | ok value next =>
      rw [bind_of_ok first] at ran
      exact ⟨value, next, rfl, ran⟩
  | error error next =>
      change EStateM.bind steps rest state = _ at ran
      unfold EStateM.bind at ran
      rw [first] at ran
      cases ran

end Steps

theorem length_le_of_nodup {ids : List UInt32} (distinct : ids.Nodup) :
    ids.length ≤ UInt32.size := by
  have numbers : (ids.map UInt32.toNat).Nodup :=
    distinct.map fun _ _ same => UInt32.toNat_inj.1 same
  have inside : ids.map UInt32.toNat ⊆ List.range UInt32.size := by
    intro number member
    obtain ⟨id, _, rfl⟩ := List.mem_map.1 member
    exact List.mem_range.2 id.toNat_lt
  simpa using (List.subperm_of_subset numbers inside).length_le

theorem nodup_map_ofNat_range {count : Nat} (bound : count ≤ UInt32.size) :
    ((List.range count).map UInt32.ofNat).Nodup := by
  apply List.Nodup.map_on _ List.nodup_range
  intro left leftMember right rightMember same
  have leftBound : left < UInt32.size := Nat.lt_of_lt_of_le (List.mem_range.1 leftMember) bound
  have rightBound : right < UInt32.size := Nat.lt_of_lt_of_le (List.mem_range.1 rightMember) bound
  have numbers := congrArg UInt32.toNat same
  rwa [UInt32.toNat_ofNat_of_lt' leftBound, UInt32.toNat_ofNat_of_lt' rightBound] at numbers

end MaterialGraph
