import LodashStyle.Proofs.GreedyFixes

/-!
# Fixes that are apart or inside one another

Taken in the order of their spans, a fix comes before those inside it.  So of fixes that are apart
or strictly inside one another exactly those inside another one are skipped: the first fix around
one is applied, as nothing before it reaches into it.

## Key results

- `applied_eq_not_isInside`: applied is what lies in no other fix
- `select_of_laminar`: the outermost fixes are selected
- `outermost_of_apart`: of fixes that are all apart every one is outermost
-/

namespace LodashStyle

namespace Fix

/-! ## Spans -/

/-- Fixes one of which ends before the other one starts. -/
def Apart (f g : Fix) : Prop := f.stop ≤ g.start ∨ g.stop ≤ f.start

/-- Whether a fix lies strictly inside another one. -/
def isInside (f g : Fix) : Bool := g.start < f.start && f.stop < g.stop

/-- Fixes that are apart, or one of which lies inside the other. -/
def Laminar (f g : Fix) : Prop := f.Apart g ∨ f.isInside g = true ∨ g.isInside f = true

/-- The fixes that lie in no other one, in the order of their spans. -/
def outermost (fixes : List Fix) : List Fix := (sort fixes).filter fun f => !fixes.any f.isInside

/-- The fixes that lie in another one, in the order of their spans. -/
def enclosed (fixes : List Fix) : List Fix := (sort fixes).filter fun f => fixes.any f.isInside

variable {f g h : Fix}

theorem isInside_iff : f.isInside g = true ↔ g.start < f.start ∧ f.stop < g.stop := by
  simp [isInside]

theorem isInside_trans (hfg : f.isInside g = true) (hgh : g.isInside h = true) : f.isInside h = true := by
  rw [isInside_iff] at *
  omega

theorem Apart.symm (h : f.Apart g) : g.Apart f := Or.symm h

theorem Apart.not_isInside (h : f.Apart g) : f.isInside g = false := by
  have hle := f.start_le_stop
  rw [Bool.eq_false_iff, ne_eq, isInside_iff]
  unfold Apart at h
  omega

theorem Laminar.symm (h : f.Laminar g) : g.Laminar f := by
  obtain hapart | hinside | hinside := h
  · exact .inl hapart.symm
  · exact .inr (.inr hinside)
  · exact .inr (.inl hinside)

/-- What starts within an earlier fix lies inside it. -/
theorem Laminar.isInside_of_le (h : g.Laminar f) (hle : g.le f = true) (hstart : f.start < g.stop) :
    f.isInside g = true := by
  have hf := f.start_le_stop
  rw [le_iff] at hle
  obtain hapart | hinside | hinside := h
  · -- Only an empty fix at the start could be apart, and it would stand earlier.
    unfold Apart at hapart
    omega
  · rw [isInside_iff] at hinside
    omega
  · exact hinside

/-- Fixes that are all apart are all outermost. -/
theorem any_isInside_of_apart {fixes : List Fix} (h : fixes.Pairwise Apart) {f : Fix} (hf : f ∈ fixes) :
    fixes.any f.isInside = false := by
  have hself : ∀ f ∈ fixes, f.isInside f = false := by
    intro f _
    simp [isInside]
  have hearlier := h.imp fun hapart => hapart.not_isInside
  have hlater := h.imp fun hapart => hapart.symm.not_isInside
  rw [List.any_eq_false]
  intro g hg
  rw [hearlier.forall_of_forall_of_flip hself hlater hf hg]
  decide

theorem outermost_of_apart {fixes : List Fix} (h : fixes.Pairwise Apart) :
    outermost fixes = sort fixes := by
  rw [outermost, List.filter_eq_self]
  intro f hf
  rw [any_isInside_of_apart h (mem_sort.1 hf)]
  rfl

theorem enclosed_of_apart {fixes : List Fix} (h : fixes.Pairwise Apart) : enclosed fixes = [] := by
  rw [enclosed, List.filter_eq_nil_iff]
  intro f hf
  rw [any_isInside_of_apart h (mem_sort.1 hf)]
  decide

/-! ## The outer ones are applied -/

section Greedy

variable {size : Nat} {marks : List Marked} {m : Marked}

/-- Marks of fixes within a source, in the order of their spans, that are apart or inside one
    another. -/
structure AreLaminar (size : Nat) (marks : List Marked) : Prop where
  greedy : IsGreedy size marks
  within : ∀ m ∈ marks, m.fix.stop ≤ size
  ordered : marks.Pairwise fun a b => a.fix.le b.fix = true
  laminar : marks.Pairwise fun a b => a.fix.Laminar b.fix

/-- A skipped fix lies inside another one: the one in its way. -/
theorem AreLaminar.exists_isInside (h : AreLaminar size marks) (hm : m ∈ marks)
    (hskipped : m.applied = false) : ∃ g ∈ marks, m.fix.isInside g.fix = true := by
  obtain ⟨before, after, rfl⟩ := List.append_of_mem hm
  obtain hsize | ⟨g, hg, -, hstart⟩ := (h.greedy before m after rfl).1 hskipped
  · have hwithin := h.within m hm
    omega
  · have hle := (List.pairwise_append.1 h.ordered).2.2 g hg m List.mem_cons_self
    have hlaminar := (List.pairwise_append.1 h.laminar).2.2 g hg m List.mem_cons_self
    exact ⟨g, List.mem_append_left _ hg, hlaminar.isInside_of_le hle hstart⟩

/-- What lies further out stands earlier in the order. -/
theorem AreLaminar.mem_before (h : AreLaminar size marks) {before after : List Marked} {g : Marked}
    (hsplit : marks = before ++ m :: after) (hg : g ∈ marks) (hinside : m.fix.isInside g.fix = true) :
    g ∈ before := by
  rw [isInside_iff] at hinside
  rw [hsplit] at hg
  obtain hbefore | hg := List.mem_append.1 hg
  · exact hbefore
  · have hordered := h.ordered
    rw [hsplit, List.pairwise_append, List.pairwise_cons] at hordered
    obtain rfl | hafter := List.mem_cons.1 hg
    · omega
    · have hle := hordered.2.1.1 g hafter
      rw [le_iff] at hle
      omega

/-- A fix inside another one is skipped. -/
theorem AreLaminar.applied_eq_false (h : AreLaminar size marks) (hm : m ∈ marks) {g : Marked}
    (hg : g ∈ marks) (hinside : m.fix.isInside g.fix = true) : m.applied = false := by
  -- The outer fix is applied, or lies itself inside one that starts earlier.
  induction hstart : g.fix.start using Nat.strongRecOn generalizing g with
  | ind start ih =>
    cases happlied : g.applied with
    | true =>
      obtain ⟨before, after, hsplit⟩ := List.append_of_mem hm
      have hbefore := h.mem_before hsplit hg hinside
      have hle := m.fix.start_le_stop
      rw [isInside_iff] at hinside
      rw [h.greedy before m after hsplit]
      exact .inr ⟨g, hbefore, happlied, by omega⟩
    | false =>
      obtain ⟨outer, houter, hinside'⟩ := h.exists_isInside hg happlied
      have hless : outer.fix.start < start := by
        rw [isInside_iff] at hinside'
        omega
      exact ih outer.fix.start hless houter (isInside_trans hinside hinside') rfl

/-- Applied is what lies in no other fix. -/
theorem applied_eq_not_isInside (h : AreLaminar size marks) (hm : m ∈ marks) :
    m.applied = !(marks.map (·.fix)).any m.fix.isInside := by
  cases happlied : m.applied with
  | false =>
    obtain ⟨g, hg, hinside⟩ := h.exists_isInside hm happlied
    have hany : (marks.map (·.fix)).any m.fix.isInside = true :=
      List.any_eq_true.2 ⟨g.fix, List.mem_map_of_mem hg, hinside⟩
    rw [hany]
    rfl
  | true =>
    have hany : (marks.map (·.fix)).any m.fix.isInside = false := by
      rw [List.any_eq_false]
      intro f hf hinside
      obtain ⟨g, hg, rfl⟩ := List.mem_map.1 hf
      rw [h.applied_eq_false hm hg hinside] at happlied
      exact nomatch happlied
    rw [hany]
    rfl

end Greedy

/-- Which of several fixes within a source are applied, if they are apart or inside one another. -/
theorem select_of_laminar {size : Nat} {fixes : List Fix} (hsize : ∀ f ∈ fixes, f.stop ≤ size)
    (h : fixes.Pairwise Laminar) : select size 0 (sort fixes) = (outermost fixes, enclosed fixes) := by
  let marks := mark size 0 (sort fixes)
  have hperm := sort_perm fixes
  have hmap : marks.map (·.fix) = sort fixes := map_fix_mark size 0 (sort fixes)
  have hordered : (marks.map (·.fix)).Pairwise fun f g => f.le g = true := by
    rw [hmap]
    exact pairwise_sort fixes
  have hlaminar : (marks.map (·.fix)).Pairwise Laminar := by
    rw [hmap]
    exact (hperm.pairwise_iff Laminar.symm).2 h
  have hwithin : ∀ m ∈ marks, m.fix.stop ≤ size := by
    intro m hm
    have hmem : m.fix ∈ sort fixes := hmap ▸ List.mem_map_of_mem hm
    exact hsize m.fix (mem_sort.1 hmem)
  have hmarks : AreLaminar size marks :=
    ⟨isGreedy_mark size (sort fixes), hwithin, List.pairwise_map.1 hordered, List.pairwise_map.1 hlaminar⟩
  have happlied : ∀ m ∈ marks, m.applied = !fixes.any m.fix.isInside := by
    intro m hm
    rw [applied_eq_not_isInside hmarks hm, hmap, hperm.any_eq]
  -- Marked as applied is what the filter lets through, mark by mark.
  have houter : appliedOf marks = outermost fixes := by
    rw [appliedOf, outermost, ← hmap, List.filter_map]
    congr 1
    apply List.filter_congr
    intro m hm
    exact happlied m hm
  have hinner : skippedOf marks = enclosed fixes := by
    rw [skippedOf, enclosed, ← hmap, List.filter_map]
    congr 1
    apply List.filter_congr
    intro m hm
    rw [happlied m hm, Bool.not_not]
    rfl
  rw [select_eq_mark, ← houter, ← hinner]

end Fix

end LodashStyle
