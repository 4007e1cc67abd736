import LodashStyle.Proofs.ChainReports
import LodashStyle.Proofs.MirroredTrees
import LodashStyle.Proofs.PartSites
import Mathlib.Data.List.Chain

/-!
# Calls nested through first arguments

Whether a call opens enough nested calls is decided by counting down on the way from first argument
to first argument.  `Meets` says what is counted, without the counting: so many times in a row, the
node that the way has led to passes a test.  The way leads to smaller and smaller nodes, so that it
ends before the fuel does, and a count below zero is never brought down to zero.

Along a run of library calls the number of calls that are met falls by one with each call, whence a
run of `l` calls is reported at its outermost `l + 1 - d` calls when `d` is the depth.

## Key results

- `nestedFrom_iff`: the count down succeeds if it starts at no negative number and enough calls are met
- `IsRun.meets_iff`: the calls that are met from a call of a run on are those below it in the run
- `reportsNesting_iff`: nested calls are reported where the outermost of them stands
- `IsRun.reportsNesting_always_iff`: a call of a run is reported if the run goes on for the whole depth
- `nested_calls_reported`: what is counted, and which calls of a run are reported
-/

namespace LodashStyle

open JavaScript

/-- An argument of a call, without parentheses, is smaller than the call. -/
theorem JavaScript.Node.size_lt_of_argument {n m : Node} {index : Nat}
    (h : n.argument? index = some m) : m.size < n.size := by
  obtain ⟨list, hlist, -, a, ha, hunwrap⟩ := argument?_cases h
  have hm := size_le_of_mem_nodes (mem_nodes_of_unwrap hunwrap)
  have ha := size_lt_of_child ha
  have hlist := size_lt_of_child hlist
  omega

namespace Chaining

variable {u : Usage} {root : Node} {test : Node → Prop} {n : Option Node} {m : Node} {s t : Site}
  {count : Nat}

/-! ## Counting -/

/-- Where it leads to take the first argument some number of times. -/
def descend : Nat → Option Node → Option Node
  | 0, n => n
  | steps + 1, n => descend steps (n.bind (·.argument? 0))

/-- From a node on, at least `count` nodes that pass a test are met in a row, each the first argument
    of the one before it. -/
def Meets (test : Node → Prop) (count : Nat) (n : Option Node) : Prop :=
  ∀ i < count, ∃ m, descend i n = some m ∧ test m

/-- Nothing has to be met. -/
theorem meets_zero : Meets test 0 n := by
  intro i hi
  omega

/-- Without a node nothing is met. -/
theorem meets_none_iff : Meets test count none ↔ count = 0 := by
  cases count with
  | zero => simp [meets_zero]
  | succ count =>
    refine iff_of_false (fun h => ?_) (by omega)
    obtain ⟨m, hm, -⟩ := h 0 (by omega)
    exact nomatch hm

/-- One more node is met if the first one passes and the others follow it. -/
theorem meets_succ : Meets test (count + 1) (some m) ↔ test m ∧ Meets test count (m.argument? 0) := by
  constructor
  · intro h
    constructor
    · obtain ⟨first, hfirst, htest⟩ := h 0 (by omega)
      rwa [Option.some.inj hfirst]
    · intro i hi
      exact h (i + 1) (by omega)
  · rintro ⟨htest, h⟩ i hi
    cases i with
    | zero => exact ⟨m, rfl, htest⟩
    | succ i => exact h i (by omega)

/-- Of a row of nodes any first part is a row. -/
theorem Meets.of_le {more : Nat} (h : Meets test more n) (hle : count ≤ more) : Meets test count n := by
  intro i hi
  exact h i (by omega)

/-- A weaker test is passed as often. -/
theorem Meets.mono {other : Node → Prop} (h : Meets test count n) (himp : ∀ m, test m → other m) :
    Meets other count n := by
  intro i hi
  obtain ⟨m, hm, htest⟩ := h i hi
  exact ⟨m, hm, himp m htest⟩

/-- Without a node nothing can be counted down. -/
theorem nestedFrom_none_iff {anyMethod : Bool} {fuel : Nat} {levels : Int} :
    nestedFrom u anyMethod fuel none levels = true ↔ levels = 0 := by
  cases fuel with
  | zero => rw [nestedFrom, beq_iff_eq]
  | succ fuel =>
    by_cases hzero : levels = 0
    · simp [nestedFrom, hzero]
    · simp [nestedFrom, hzero]

/-- Counting down from a number succeeds if it is not negative and so many levels are met. -/
theorem nestedFrom_iff {anyMethod : Bool} {fuel : Nat} {levels : Int}
    (hfuel : ∀ m, n = some m → m.size < fuel) :
    nestedFrom u anyMethod fuel n levels = true ↔
      0 ≤ levels ∧ Meets (fun m => isLevel u anyMethod m = true) levels.toNat n := by
  induction fuel generalizing n levels with
  | zero =>
    cases n with
    | none =>
      rw [nestedFrom_none_iff, meets_none_iff]
      omega
    | some m => exact absurd (hfuel m rfl) (by omega)
  | succ fuel ih =>
    cases n with
    | none =>
      rw [nestedFrom_none_iff, meets_none_iff]
      omega
    | some m =>
      by_cases hzero : levels = 0
      · subst hzero
        simp [nestedFrom, meets_zero]
      -- A negative number stays negative, and any other one has a last level to count.
      have hcount : 0 ≤ levels → levels.toNat = (levels - 1).toNat + 1 := by
        omega
      have hsmaller : ∀ a, m.argument? 0 = some a → a.size < fuel := by
        intro a ha
        have := Node.size_lt_of_argument ha
        have := hfuel m rfl
        omega
      rw [nestedFrom, if_neg hzero, Bool.and_eq_true, ih hsmaller]
      constructor
      · rintro ⟨hlevel, hle, hmeets⟩
        rw [hcount (by omega), meets_succ]
        exact ⟨by omega, hlevel, hmeets⟩
      · rintro ⟨hle, hmeets⟩
        rw [hcount hle, meets_succ] at hmeets
        exact ⟨hmeets.1, by omega, hmeets.2⟩

/-- A call of a library method. -/
def CallsLibrary (u : Usage) (n : Node) : Prop := u.libraryMethod? n ≠ none

/-- A call of a library method that an implicit chain can hold. -/
def CallsChainable (u : Usage) (n : Node) : Prop :=
  ∃ method, u.libraryMethod? n = some method ∧ u.methods.isChainable method = true

/-- What an implicit chain can hold is a method of the library. -/
theorem CallsChainable.callsLibrary (h : CallsChainable u m) : CallsLibrary u m := by
  obtain ⟨method, hmethod, -⟩ := h
  simp [CallsLibrary, hmethod]

theorem isLevel_true_iff : isLevel u true m = true ↔ CallsLibrary u m := by
  simp [isLevel, CallsLibrary, Option.isSome_iff_ne_none]

theorem isLevel_false_iff : isLevel u false m = true ↔ CallsChainable u m := by
  simp [isLevel, CallsChainable, Option.any_eq_true]

/-- Where all methods count, the node itself is the first of the row. -/
theorem isNested_any_iff {levels : Int} :
    isNested u true levels m = true ↔ 0 ≤ levels ∧ Meets (CallsLibrary u) levels.toNat (some m) := by
  have hfuel : ∀ a, some m = some a → a.size < m.size + 1 := by
    rintro a ⟨⟩
    omega
  rw [isNested, if_pos rfl, nestedFrom_iff hfuel]
  simp only [isLevel_true_iff]

/-- Where only chainable ones do, the node itself may be any method. -/
theorem isNested_chainable_iff {levels : Int} :
    isNested u false levels m = true ↔
      1 ≤ levels ∧ CallsLibrary u m ∧ Meets (CallsChainable u) (levels - 1).toNat (m.argument? 0) := by
  have hfuel : ∀ a, m.argument? 0 = some a → a.size < m.size + 1 := by
    intro a ha
    have := Node.size_lt_of_argument ha
    omega
  have hmethod : (u.libraryMethod? m).isSome = true ↔ CallsLibrary u m := by
    rw [CallsLibrary, Option.isSome_iff_ne_none]
  rw [isNested, if_neg Bool.false_ne_true, Bool.and_eq_true, nestedFrom_iff hfuel, hmethod]
  simp only [isLevel_false_iff]
  have hone : 0 ≤ levels - 1 ↔ 1 ≤ levels := by
    omega
  rw [hone, and_left_comm]

/-! ## Reports -/

/-- Nested calls are reported at a site when the calls of a tree are judged. -/
def ReportsNesting (u : Usage) (options : ChainingOptions) (root : Node) (s : Site) : Prop :=
  ∃ t ∈ Site.calls root, judge u options t = some ⟨s, .always⟩

/-- A nested call is reported at itself. -/
theorem judgeNested_always_iff {anyMethod : Bool} {depth : Nat} :
    judgeNested u anyMethod depth t = some ⟨s, .always⟩ ↔
      t = s ∧ isNested u anyMethod depth s.node = true := by
  unfold judgeNested
  constructor
  · intro h
    split at h
    · rename_i hnested
      obtain rfl : t = s := by simpa using h
      exact ⟨rfl, hnested⟩
    · obtain ⟨call, -, hcall⟩ := Option.map_eq_some_iff.1 h
      simp at hcall
  · rintro ⟨rfl, hnested⟩
    rw [if_pos hnested]

/-- Nested calls are reported where the outermost of them stands. -/
theorem reportsNesting_iff {options : ChainingOptions} :
    ReportsNesting u options root s ↔ s ∈ Site.calls root ∧ options.mode ≠ .never ∧
      isNested u (options.mode == .always) options.depth s.node = true := by
  have hjudge : ∀ t, judge u options t = some ⟨s, .always⟩ ↔
      t = s ∧ options.mode ≠ .never ∧
        isNested u (options.mode == .always) options.depth s.node = true := by
    intro t
    have himplicit : (ChainMode.implicit == ChainMode.always) = false := by decide
    unfold judge
    cases options.mode with
    | always => simp [judgeNested_always_iff]
    | implicit => simp [judgeNested_always_iff, himplicit]
    | never => simp
  simp only [ReportsNesting, hjudge]
  constructor
  · rintro ⟨t, ht, rfl, h⟩
    exact ⟨ht, h⟩
  · rintro ⟨hs, h⟩
    exact ⟨s, hs, rfl, h⟩

/-- A library call is a call. -/
theorem CallsLibrary.isCall (h : CallsLibrary u m) : m.isCall = true := by
  unfold CallsLibrary Usage.libraryMethod? at h
  split at h
  · rename_i hcall
    simp only [Usage.isLibraryCall, Node.isMethodCall, Bool.and_eq_true] at hcall
    exact hcall.1.1.1
  · unfold Usage.importedMethod? at h
    split at h
    · rename_i hcall
      exact hcall
    · exact absurd rfl h

/-- In mode `implicit` more is asked of nested calls than in mode `always`. -/
theorem isNested_any_of_chainable {levels : Int} (h : isNested u false levels m = true) :
    isNested u true levels m = true := by
  rw [isNested_chainable_iff] at h
  obtain ⟨hle, hcall, hmeets⟩ := h
  have hcount : levels.toNat = (levels - 1).toNat + 1 := by
    omega
  rw [isNested_any_iff, hcount, meets_succ]
  exact ⟨by omega, hcall, hmeets.mono fun a ha => ha.callsLibrary⟩

/-- Fewer levels are easier to find, so long as there is one. -/
theorem isNested_of_le {anyMethod : Bool} {levels more : Int} (h : isNested u anyMethod more m = true)
    (hone : 1 ≤ levels) (hle : levels ≤ more) : isNested u anyMethod levels m = true := by
  cases anyMethod with
  | true =>
    rw [isNested_any_iff] at h ⊢
    exact ⟨by omega, h.2.of_le (by omega)⟩
  | false =>
    rw [isNested_chainable_iff] at h ⊢
    exact ⟨hone, h.2.1, h.2.2.of_le (by omega)⟩

/-! ## Runs -/

/-- A run of library calls in a tree, each the first argument of the one before it, that goes on to
    the innermost one.  Where it starts is left open, so that a maximal run and each part of it from
    some call on are such runs. -/
structure IsRun (u : Usage) (root : Node) (run : List Site) : Prop where
  sites : ∀ s ∈ run, Site.Of root s
  calls : ∀ s ∈ run, CallsLibrary u s.node
  nested : run.IsChain fun s t => s.argument? 0 = some t
  innermost : ∀ s ∈ run.getLast?, ∀ t, s.argument? 0 = some t → ¬CallsLibrary u t.node

/-- A run without its first call is a run. -/
theorem IsRun.tail {run : List Site} (h : IsRun u root (s :: run)) : IsRun u root run where
  sites t ht := h.sites t (List.mem_cons_of_mem s ht)
  calls t ht := h.calls t (List.mem_cons_of_mem s ht)
  nested := (List.isChain_cons.1 h.nested).2
  innermost t ht := by
    apply h.innermost t
    cases run with
    | nil => exact nomatch ht
    | cons next run => rwa [List.getLast?_cons_cons]

/-- The calls that are met from a call of a run on are those of the run from there on. -/
theorem IsRun.meets_iff {run : List Site} (h : IsRun u root run) {i : Nat} (hs : run[i]? = some s) :
    Meets (CallsLibrary u) count (some s.node) ↔ i + count ≤ run.length := by
  induction run generalizing i s count with
  | nil => exact nomatch hs
  | cons first rest ih =>
    cases i with
    | succ i =>
      rw [ih h.tail hs, List.length_cons]
      omega
    | zero =>
      obtain rfl : first = s := Option.some.inj hs
      cases count with
      | zero => simp [meets_zero]
      | succ count =>
        rw [meets_succ, and_iff_right (h.calls first List.mem_cons_self), ← Site.map_node_argument?]
        cases rest with
        | cons next rest =>
          -- The first argument is the next call of the run.
          have hnext := (List.isChain_cons_cons.1 h.nested).1
          have hfirst : (next :: rest)[0]? = some next := rfl
          rw [hnext, Option.map_some, ih h.tail hfirst]
          simp only [List.length_cons]
          omega
        | nil =>
          -- No library call is the first argument of the last one.
          have hend := h.innermost first rfl
          cases hargument : first.argument? 0 with
          | none => simp [meets_none_iff]
          | some t =>
            cases count with
            | zero => simp [meets_zero]
            | succ count =>
              have hno : ¬Meets (CallsLibrary u) (count + 1) (some t.node) := by
                rw [meets_succ]
                exact fun hmeets => hend t hargument hmeets.1
              simp [hno]

/-- A call of a run is reported in mode `always` if the run goes on for the whole depth. -/
theorem IsRun.reportsNesting_always_iff {run : List Site} (h : IsRun u root run)
    {options : ChainingOptions} (hmode : options.mode = .always) {i : Nat} (hs : run[i]? = some s) :
    ReportsNesting u options root s ↔ i + options.depth ≤ run.length := by
  have hmem := List.mem_of_getElem? hs
  have hcall : s ∈ Site.calls root := Site.mem_calls_iff.2 ⟨h.sites s hmem, (h.calls s hmem).isCall⟩
  have hnested : isNested u true options.depth s.node = true ↔ i + options.depth ≤ run.length := by
    rw [isNested_any_iff, and_iff_right (by omega), Int.toNat_natCast]
    exact h.meets_iff hs
  simp [reportsNesting_iff, hcall, hmode, hnested]

/-- The library calls from a site on, each the first argument of the one before it, at most `fuel` of
    them. -/
def runFrom (u : Usage) : Nat → Option Site → List Site
  | 0, _ => []
  | _ + 1, none => []
  | fuel + 1, some s =>
    if (u.libraryMethod? s.node).isSome then s :: runFrom u fuel (s.argument? 0) else []

theorem eq_of_mem_head_runFrom {fuel : Nat} {first : Option Site} (h : t ∈ (runFrom u fuel first).head?) :
    first = some t := by
  cases fuel with
  | zero => exact nomatch h
  | succ fuel =>
    cases first with
    | none => exact nomatch h
    | some s =>
      rw [runFrom] at h
      split at h
      · exact h
      · exact nomatch h

/-- The calls from a site on make a run. -/
theorem isRun_runFrom {fuel : Nat} {first : Option Site} (hof : ∀ s, first = some s → Site.Of root s)
    (hfuel : ∀ s, first = some s → s.node.size < fuel) : IsRun u root (runFrom u fuel first) := by
  have hempty : IsRun u root [] := ⟨nofun, nofun, .nil, nofun⟩
  induction fuel generalizing first with
  | zero => exact hempty
  | succ fuel ih =>
    cases first with
    | none => exact hempty
    | some s =>
      rw [runFrom]
      split
      · rename_i hcall
        have hsmaller : ∀ t, s.argument? 0 = some t → t.node.size < fuel := by
          intro t ht
          have := Node.size_lt_of_argument (Site.node_argument? ht)
          have := hfuel s rfl
          omega
        have hrest := ih (fun t ht => (hof s rfl).argument? ht) hsmaller
        constructor
        · exact List.forall_mem_cons.2 ⟨hof s rfl, hrest.sites⟩
        · exact List.forall_mem_cons.2 ⟨Option.isSome_iff_ne_none.1 hcall, hrest.calls⟩
        · exact List.isChain_cons.2 ⟨fun t ht => eq_of_mem_head_runFrom ht, hrest.nested⟩
        · intro last hlast t ht
          cases hrun : runFrom u fuel (s.argument? 0) with
          | cons next run =>
            rw [hrun] at hlast hrest
            rw [List.getLast?_cons_cons] at hlast
            exact hrest.innermost last hlast t ht
          | nil =>
            -- The run ends here because the first argument is no library call.
            rw [hrun] at hlast
            obtain rfl : s = last := Option.some.inj hlast
            cases fuel with
            | zero => exact absurd (hsmaller t ht) (by omega)
            | succ fuel =>
              rw [ht, runFrom] at hrun
              intro hlibrary
              rw [if_pos (Option.isSome_iff_ne_none.2 hlibrary)] at hrun
              exact nomatch hrun
      · exact hempty

/-- The calls met from a site on are a run. -/
theorem isRun_from (hs : Site.Of root s) : IsRun u root (runFrom u (s.node.size + 1) (some s)) := by
  apply isRun_runFrom
  · intro t ht
    rwa [← Option.some.inj ht]
  · intro t ht
    rw [← Option.some.inj ht]
    omega

/-- Every library call of a tree starts a run. -/
theorem exists_isRun (hs : Site.Of root s) (hcall : CallsLibrary u s.node) :
    ∃ run, IsRun u root (s :: run) := by
  have hrun : IsRun u root (runFrom u (s.node.size + 1) (some s)) := isRun_from hs
  rw [runFrom, if_pos (Option.isSome_iff_ne_none.2 hcall)] at hrun
  exact ⟨_, hrun⟩

/-- **Nesting.**  When any method counts, a node opens `levels` nested calls exactly when `levels` is
    not negative and so many library calls are met from the node on by taking first arguments.  When
    the methods must be chainable, it does exactly when `levels` is at least one, the node is a library
    call and one call less, each of a chainable method, is met from its first argument on.

    So in mode `always` a run of library calls is reported at its outermost `run.length + 1 - depth`
    calls, which are none if the run is shorter than the depth; every library call starts a run.  Mode
    `implicit` reports no nested calls that mode `always` does not report at the same depth, and a
    greater depth reports none that a smaller one does not. -/
theorem nested_calls_reported (u : Usage) (root : Node) :
    (∀ n levels, isNested u true levels n = true ↔
      0 ≤ levels ∧ Meets (CallsLibrary u) levels.toNat (some n)) ∧
    (∀ n levels, isNested u false levels n = true ↔
      1 ≤ levels ∧ CallsLibrary u n ∧ Meets (CallsChainable u) (levels - 1).toNat (n.argument? 0)) ∧
    (∀ depth (hdepth : 2 ≤ depth) (run : List Site), IsRun u root run → ∀ i s, run[i]? = some s →
      (ReportsNesting u ⟨.always, depth, hdepth⟩ root s ↔ i < run.length + 1 - depth)) ∧
    (∀ s, Site.Of root s → CallsLibrary u s.node → ∃ run, IsRun u root (s :: run)) ∧
    (∀ depth (hdepth : 2 ≤ depth) s, ReportsNesting u ⟨.implicit, depth, hdepth⟩ root s →
      ReportsNesting u ⟨.always, depth, hdepth⟩ root s) ∧
    ∀ mode depth deeper (hdepth : 2 ≤ depth) (hdeeper : 2 ≤ deeper), depth ≤ deeper → ∀ s,
      ReportsNesting u ⟨mode, deeper, hdeeper⟩ root s → ReportsNesting u ⟨mode, depth, hdepth⟩ root s := by
  refine ⟨fun n levels => isNested_any_iff, fun n levels => isNested_chainable_iff, ?_,
    fun s hs hcall => exists_isRun hs hcall, ?_, ?_⟩
  · intro depth hdepth run hrun i s hs
    rw [hrun.reportsNesting_always_iff rfl hs]
    dsimp only
    omega
  · intro depth hdepth s h
    rw [reportsNesting_iff] at h ⊢
    exact ⟨h.1, by simp, isNested_any_of_chainable h.2.2⟩
  · intro mode depth deeper hdepth hdeeper hle s h
    rw [reportsNesting_iff] at h ⊢
    dsimp only at h ⊢
    exact ⟨h.1, h.2.1, isNested_of_le h.2.2 (by omega) (by omega)⟩

/-- Three calls, the second of them in parentheses: at depth two the outermost two are reported. -/
theorem nested_calls_reported_two_of_three :
    let root := (Tree.parse "_.map((_.filter(_.compact(xs), f)), g);".toList).root
    let u := Usage.ofSettings {}
    ∃ outer middle inner : Site, IsRun u root [outer, middle, inner] ∧
      ReportsNesting u { mode := .always, depth := 2 } root outer ∧
      ReportsNesting u { mode := .always, depth := 2 } root middle ∧
      ¬ReportsNesting u { mode := .always, depth := 2 } root inner := by
  intro root u
  have hlength : ∃ s ∈ Site.calls root, (runFrom u (s.node.size + 1) (some s)).length = 3 := by
    decide +kernel
  obtain ⟨s, hs, hlength⟩ := hlength
  have hrun : IsRun u root (runFrom u (s.node.size + 1) (some s)) := isRun_from (Site.of_mem_calls hs)
  obtain ⟨outer, middle, inner, hthree⟩ := List.length_eq_three.1 hlength
  rw [hthree] at hrun
  have hreports := (nested_calls_reported u root).2.2.1 2 (by decide) [outer, middle, inner] hrun
  refine ⟨outer, middle, inner, hrun, ?_, ?_, ?_⟩
  · exact (hreports 0 outer rfl).2 (by simp)
  · exact (hreports 1 middle rfl).2 (by simp)
  · exact mt (hreports 2 inner rfl).1 (by simp)

end Chaining

end LodashStyle
