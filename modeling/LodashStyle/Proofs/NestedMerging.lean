import LodashStyle.Proofs.Precedence

/-!
# Merges of nested objects

Laying one object over another goes down through the objects that both hold under a key.  So a value
that is no object is found by its path of keys: in the upper object if it is there, and otherwise in the
lower one, unless the upper object has something else at the path or on the way to it.

Layers are merged one after the other.  Where they agree on which paths lead to objects, it makes no
difference which of them are merged first.  Otherwise it does: a value over an object hides it, while
two objects around that value are merged with each other if the value is merged with the upper one first.

## Key results

- `valueAt?_overlay`: what stands at a path after a merge
- `Agree.overlay`: what agrees with the parts of a merge agrees with the merge
- `overlay_assoc`: three values that agree may be grouped in two ways
- `Grouped.eq_merge`: any number of layers may be grouped in any way
- `Shaped.agree`: the layers of a configuration agree
- `merge_at_paths_in_any_grouping`: the values of a merge, and the grouping of layers
-/

namespace LodashStyle

namespace Json

/-! ## Paths -/

/-- Whether a value is an object. -/
def isObject : Json → Bool
  | .object _ => true
  | _ => false

/-- The value that a path of keys leads to, each key being taken in an object. -/
def valueAt? : List Text → Json → Option Json
  | [], v => some v
  | key :: path, .object members => (Members.get? key members).bind (valueAt? path)
  | _ :: _, _ => none

/-- Whether a path comes upon a value that is no object before its end. -/
def blocks : List Text → Json → Bool
  | [], _ => false
  | key :: path, .object members => (Members.get? key members).any (blocks path)
  | _ :: _, _ => true

variable {v w upper : Json} {key : Text} {path : List Text} {members : Members}

theorem valueAt?_nil (v : Json) : v.valueAt? [] = some v := by
  rw [valueAt?]

theorem valueAt?_object (members : Members) (key : Text) (path : List Text) :
    (object members).valueAt? (key :: path) = (members.get? key).bind (valueAt? path) := by
  rw [valueAt?]

theorem exists_object_of_isObject (h : v.isObject = true) : ∃ members : Members, v = .object members := by
  cases v with
  | object members => exact ⟨members, rfl⟩
  | _ => exact nomatch h

theorem ne_object_of_not_isObject (h : v.isObject = false) (members : Members) : v ≠ .object members := by
  intro heq
  rw [heq] at h
  exact nomatch h

/-- A path leads no further than to a value that is no object. -/
theorem valueAt?_of_not_isObject (h : v.isObject = false) : v.valueAt? (key :: path) = none := by
  cases v with
  | object members => exact nomatch h
  | _ => rw [valueAt?]; exact fun members => nofun

theorem valueAt?_eq_some_of_not_isObject (h : v.isObject = false) (hw : v.valueAt? path = some w) :
    path = [] ∧ w = v := by
  cases path with
  | nil =>
    rw [valueAt?_nil] at hw
    exact ⟨rfl, (Option.some.inj hw).symm⟩
  | cons key path =>
    rw [valueAt?_of_not_isObject h] at hw
    exact nomatch hw

theorem blocks_of_not_isObject (h : v.isObject = false) : v.blocks (key :: path) = true := by
  cases v with
  | object members => exact nomatch h
  | _ => rw [blocks]; exact fun members => nofun

/-- What blocks a path is a value that is no object, at a part of the path before its end. -/
theorem blocks_iff : v.blocks path = true ↔
    ∃ before w, before <+: path ∧ before ≠ path ∧ v.valueAt? before = some w ∧ w.isObject = false := by
  induction path generalizing v with
  | nil => simp [blocks]
  | cons key path ih =>
    cases hv : v.isObject with
    | false =>
      rw [blocks_of_not_isObject hv]
      exact iff_of_true rfl ⟨[], v, List.nil_prefix, nofun, valueAt?_nil v, hv⟩
    | true =>
      obtain ⟨members, rfl⟩ := exists_object_of_isObject hv
      rw [blocks, Option.any_eq_true]
      constructor
      · rintro ⟨u, hu, hblocks⟩
        obtain ⟨before, w, hbefore, hne, hw, hatom⟩ := ih.1 hblocks
        refine ⟨key :: before, w, List.cons_prefix_cons.2 ⟨rfl, hbefore⟩, ?_, ?_, hatom⟩
        · simpa using hne
        · rw [valueAt?_object, hu]
          exact hw
      · rintro ⟨before, w, hbefore, hne, hw, hatom⟩
        -- An object is no obstacle itself, so that the one on the way lies below the first key.
        cases before with
        | nil =>
          rw [valueAt?_nil] at hw
          rw [← Option.some.inj hw] at hatom
          exact nomatch hatom
        | cons first before =>
          obtain ⟨rfl, hrest⟩ := List.cons_prefix_cons.1 hbefore
          rw [valueAt?_object] at hw
          obtain ⟨u, hu, hw⟩ := Option.bind_eq_some_iff.1 hw
          refine ⟨u, hu, ih.2 ⟨before, w, hrest, ?_, hw, hatom⟩⟩
          intro heq
          rw [heq] at hne
          exact hne rfl

/-- An object hides a path of what it is laid over: the path leads to a value in it, or comes upon a value
    that is no object before its end. -/
def Hides (upper : Json) (path : List Text) : Prop :=
  (∃ v, upper.valueAt? path = some v) ∨
    ∃ before v, before <+: path ∧ before ≠ path ∧ upper.valueAt? before = some v ∧ v.isObject = false

theorem hides_iff : upper.Hides path ↔ (upper.valueAt? path).isSome = true ∨ upper.blocks path = true := by
  rw [Hides, blocks_iff, Option.isSome_iff_exists]

instance (upper : Json) (path : List Text) : Decidable (upper.Hides path) :=
  decidable_of_iff ((upper.valueAt? path).isSome = true ∨ upper.blocks path = true) hides_iff.symm

/-! ## Values after a merge -/

/-- A value in which no object gives a key twice, be it the value itself or one that it holds. -/
inductive Keyed : Json → Prop where
  | atom {v : Json} (h : v.isObject = false) : Keyed v
  | object {members : Members} (hkeys : members.keys.Nodup)
    (hvalues : ∀ key v, members.get? key = some v → Keyed v) : Keyed (.object members)

theorem isObject_overlay (base : Option Json) (v : Json) : (overlay base v).isObject = v.isObject := by
  cases hv : v.isObject with
  | false => rw [overlay_of_ne (ne_object_of_not_isObject hv), hv]
  | true =>
    obtain ⟨members, rfl⟩ := exists_object_of_isObject hv
    rw [overlay_object]
    split <;> rfl

/-- An object is merged with an object; over anything else it stays as it is, and no path goes on below. -/
theorem overlay_object_cases (base : Option Json) (members : Members) (key : Text) (path : List Text) :
    (∃ lower : Members, base = some (.object lower)) ∨
      overlay base (.object members) = .object members ∧ base.bind (valueAt? (key :: path)) = none := by
  cases base with
  | none => exact .inr ⟨overlay_none _, rfl⟩
  | some v =>
    cases hv : v.isObject with
    | true =>
      obtain ⟨lower, rfl⟩ := exists_object_of_isObject hv
      exact .inl ⟨lower, rfl⟩
    | false =>
      refine .inr ⟨?_, valueAt?_of_not_isObject hv⟩
      rw [overlay_object]
      cases v with
      | object lower => exact nomatch hv
      | _ => rfl

/-- What stands at a path after a merge: the upper value there, laid over the lower one, and the lower one
    alone if the upper object neither has a value at the path nor blocks it. -/
theorem valueAt?_overlay (hupper : Keyed upper) (base : Option Json) (path : List Text) :
    (overlay base upper).valueAt? path =
      match upper.valueAt? path with
      | some v => some (overlay (base.bind (valueAt? path)) v)
      | none => if upper.blocks path then none else base.bind (valueAt? path) := by
  induction path generalizing base upper with
  | nil =>
    have hbase : base.bind (valueAt? []) = base := by
      cases base <;> rfl
    rw [valueAt?_nil, valueAt?_nil, hbase]
  | cons key path ih =>
    cases hupper with
    | atom h =>
      rw [overlay_of_ne (ne_object_of_not_isObject h), valueAt?_of_not_isObject h,
        blocks_of_not_isObject h]
      rfl
    | @object members hkeys hvalues =>
      obtain ⟨lower, rfl⟩ | ⟨hoverlay, hbase⟩ := overlay_object_cases base members key path
      · -- The value under the first key is laid over the one below, and the path goes on from there.
        have hbase : (some (object lower)).bind (valueAt? (key :: path)) =
            (lower.get? key).bind (valueAt? path) := valueAt?_object lower key path
        rw [overlay_object, hbase, valueAt?_object, valueAt?_object, Members.get?_merge hkeys, blocks]
        cases hget : members.get? key with
        | none => rfl
        | some u => exact ih (hvalues key u hget) (lower.get? key)
      · -- There is nothing below.
        rw [hoverlay, hbase]
        cases (object members).valueAt? (key :: path) with
        | none => simp
        | some u => simp [overlay_none]

/-- A value that is no object stands at a path of a merge if it stands there in the upper object, or in
    the lower one at a path that the upper one does not hide. -/
theorem valueAt?_merge_iff {base upper : Members} (hupper : Keyed (.object upper))
    (hv : v.isObject = false) :
    (object (base.merge upper)).valueAt? path = some v ↔
      (object upper).valueAt? path = some v ∨
        (object base).valueAt? path = some v ∧ ¬(object upper).Hides path := by
  have hmerge := valueAt?_overlay hupper (some (object base)) path
  rw [overlay_object, Option.bind_some] at hmerge
  rw [hmerge, hides_iff]
  cases hu : (object upper).valueAt? path with
  | none => cases (object upper).blocks path <;> simp
  | some u =>
    -- The upper value is no object if it is the one that is found, and then it covers what is below.
    have hcover : overlay ((object base).valueAt? path) u = v ↔ u = v := by
      constructor
      · intro h
        have hatom : u.isObject = false := by rw [← isObject_overlay, h, hv]
        rwa [overlay_of_ne (ne_object_of_not_isObject hatom)] at h
      · intro h
        rw [h, overlay_of_ne (ne_object_of_not_isObject hv)]
    simp [hcover]

/-! ## Agreement -/

/-- Values that agree on which paths lead to objects, as far as the paths lead anywhere in both. -/
def Agree (v w : Json) : Prop :=
  ∀ path x y, v.valueAt? path = some x → w.valueAt? path = some y → x.isObject = y.isObject

theorem Agree.symm (h : Agree v w) : Agree w v := by
  intro path x y hx hy
  exact (h path y x hy hx).symm

theorem Agree.isObject_eq (h : Agree v w) : v.isObject = w.isObject :=
  h [] v w (valueAt?_nil v) (valueAt?_nil w)

/-- The values under a key of objects that agree do so, too. -/
theorem Agree.get? {lower upper : Members} (h : Agree (.object lower) (.object upper))
    (hv : lower.get? key = some v) (hw : upper.get? key = some w) : Agree v w := by
  intro path x y hx hy
  apply h (key :: path) x y
  · rw [valueAt?_object, hv]
    exact hx
  · rw [valueAt?_object, hw]
    exact hy

/-- What agrees with both of two values agrees with the one laid over the other. -/
theorem Agree.overlay {base : Option Json} (hupper : Keyed upper) (hv : ∀ b ∈ base, Agree b v)
    (hw : Agree upper v) : Agree (overlay base upper) v := by
  intro path x y hx hy
  rw [valueAt?_overlay hupper] at hx
  cases hu : upper.valueAt? path with
  | some u =>
    -- Laid over anything, a value is an object exactly when it is one itself.
    rw [hu] at hx
    rw [← Option.some.inj hx, isObject_overlay]
    exact hw path u y hu hy
  | none =>
    rw [hu] at hx
    dsimp only at hx
    split at hx
    · exact nomatch hx
    · obtain ⟨b, hb, hx⟩ := Option.bind_eq_some_iff.1 hx
      exact hv b hb path x y hx hy

theorem Keyed.nodup (h : Keyed (.object members)) : members.keys.Nodup := by
  cases h with
  | atom h => exact nomatch h
  | object hkeys hvalues => exact hkeys

theorem Keyed.get? (h : Keyed (.object members)) (hv : members.get? key = some v) : Keyed v := by
  cases h with
  | atom h => exact nomatch h
  | object hkeys hvalues => exact hvalues key v hv

/-- A value laid over another one gives no key twice. -/
theorem Keyed.overlay {base : Option Json} (hbase : ∀ b ∈ base, Keyed b) (hupper : Keyed upper) :
    Keyed (overlay base upper) := by
  induction hupper generalizing base with
  | atom h =>
    rw [overlay_of_ne (ne_object_of_not_isObject h)]
    exact .atom h
  | @object members hkeys hvalues ih =>
    rw [overlay_object]
    split
    · rename_i lower
      have hlower : Keyed (.object lower) := hbase _ rfl
      refine .object (Members.nodup_keys_merge hlower.nodup) ?_
      intro key v hv
      rw [Members.get?_merge hkeys] at hv
      -- The value under a key is the lower one, or the upper one laid over it.
      cases hget : members.get? key with
      | none =>
        rw [hget] at hv
        exact hlower.get? hv
      | some u =>
        rw [hget] at hv
        rw [← Option.some.inj hv]
        exact ih key u hget fun b hb => hlower.get? hb
    · exact .object hkeys hvalues

/-! ## Grouping -/

namespace Members

/-- Three objects may be merged in two ways if this holds of the values under each key. -/
theorem merge_assoc_of_values {bottom lower upper : Members} (hbottom : bottom.keys.Nodup)
    (hlower : lower.keys.Nodup) (hupper : upper.keys.Nodup)
    (hvalues : ∀ key v w, lower.get? key = some v → upper.get? key = some w →
      overlay (some (overlay (bottom.get? key) v)) w = overlay (bottom.get? key) (overlay (some v) w)) :
    (bottom.merge lower).merge upper = bottom.merge (lower.merge upper) := by
  have hboth : (lower.merge upper).keys.Nodup := nodup_keys_merge hlower
  apply eq_of_get?
  · rw [keys_merge hupper, keys_merge hlower, keys_merge hboth, keys_merge hupper, List.filter_append,
      List.filter_filter, List.append_assoc]
    congr 2
    apply List.filter_congr
    intro key _
    -- A key is new to both objects exactly when it is new to their merge.
    by_cases hkey : key ∈ bottom.keys <;> simp [hkey]
  · exact nodup_keys_merge (nodup_keys_merge hbottom)
  · intro key
    rw [get?_merge hupper, get?_merge hlower, get?_merge hboth, get?_merge hupper]
    cases hw : upper.get? key with
    | none => rfl
    | some w =>
      cases hv : lower.get? key with
      | none => simp only [overlay_none]
      | some v => exact congrArg some (hvalues key v w hv hw)

end Members

/-- Three values that agree may be laid over one another in two ways. -/
theorem overlay_assoc {a : Option Json} {b c : Json} (ha : ∀ v ∈ a, Keyed v) (hb : Keyed b) (hc : Keyed c)
    (hab : ∀ v ∈ a, Agree v b) (hac : ∀ v ∈ a, Agree v c) (hbc : Agree b c) :
    overlay (some (overlay a b)) c = overlay a (overlay (some b) c) := by
  -- On the topmost value: if it is an object then so are those below, and the values under each of its
  -- keys are three values that agree again.
  induction hc generalizing a b with
  | atom h =>
    have hcover := ne_object_of_not_isObject h
    rw [overlay_of_ne hcover, overlay_of_ne hcover, overlay_of_ne hcover]
  | @object upper hkeys hvalues ih =>
    obtain ⟨lower, rfl⟩ := exists_object_of_isObject hbc.isObject_eq
    cases a with
    | none => rw [overlay_none, overlay_none]
    | some v =>
      obtain ⟨bottom, rfl⟩ := exists_object_of_isObject (hac v rfl).isObject_eq
      have hbottom := ha _ rfl
      have hmerge : (Members.merge bottom lower).merge upper = bottom.merge (lower.merge upper) := by
        apply Members.merge_assoc_of_values hbottom.nodup hb.nodup hkeys
        intro key y z hy hz
        apply ih key z hz (fun x hx => hbottom.get? hx) (hb.get? hy)
        · exact fun x hx => (hab _ rfl).get? hx hy
        · exact fun x hx => (hac _ rfl).get? hx hz
        · exact hbc.get? hy hz
      simp only [overlay_object, hmerge]

/-! ## Layers -/

variable {lower : Members}

theorem Keyed.merge {upper : Members} (hlower : Keyed (.object lower)) (hupper : Keyed (.object upper)) :
    Keyed (.object (lower.merge upper)) := by
  have hbase : ∀ b ∈ some (Json.object lower), Keyed b := by simpa using hlower
  have hoverlay := Keyed.overlay hbase hupper
  rwa [overlay_object] at hoverlay

theorem Agree.merge {upper : Members} (hupper : Keyed (.object upper)) (hlower : Agree (.object lower) v)
    (hagree : Agree (.object upper) v) : Agree (.object (lower.merge upper)) v := by
  have hbase : ∀ b ∈ some (Json.object lower), Agree b v := by simpa using hlower
  have hoverlay := Agree.overlay hupper hbase hagree
  rwa [overlay_object] at hoverlay

namespace Members

/-- Three objects that agree may be merged in two ways. -/
theorem merge_assoc {a b c : Members} (ha : Keyed (.object a)) (hb : Keyed (.object b))
    (hc : Keyed (.object c)) (hab : Agree (.object a) (.object b)) (hac : Agree (.object a) (.object c))
    (hbc : Agree (.object b) (.object c)) : (a.merge b).merge c = a.merge (b.merge c) := by
  have hoverlay : overlay (some (overlay (some (.object a)) (.object b))) (.object c) =
      overlay (some (.object a)) (overlay (some (.object b)) (.object c)) :=
    overlay_assoc (by simpa using ha) hb hc (by simpa using hab) (by simpa using hac) hbc
  simp only [overlay_object] at hoverlay
  exact object.inj hoverlay

/-- A value between two objects hides the lower one, unless it has been merged with the upper one before. -/
example :
    let bottom : Members := [("a", .object [("b", .null)])]
    let middle : Members := [("a", .null)]
    let top : Members := [("a", .object [])]
    (bottom.merge middle).merge top = top ∧ bottom.merge (middle.merge top) = bottom := ⟨rfl, rfl⟩

/-- Objects merged in some grouping, the first one at the bottom. -/
inductive Grouped : List Members → Members → Prop where
  | one (m : Members) : Grouped [m] m
  | join {below above : List Members} {lower upper : Members} (hlower : Grouped below lower)
    (hupper : Grouped above upper) : Grouped (below ++ above) (lower.merge upper)

variable {layers : List Members} {merged base : Members}

theorem Grouped.keyed (h : Grouped layers merged) (hlayers : ∀ layer ∈ layers, Keyed (.object layer)) :
    Keyed (.object merged) := by
  induction h with
  | one m => exact hlayers m (by simp)
  | join _ _ ihlower ihupper =>
    obtain ⟨hbelow, habove⟩ := List.forall_mem_append.1 hlayers
    exact (ihlower hbelow).merge (ihupper habove)

/-- What agrees with all layers agrees with their merge. -/
theorem Grouped.agree (h : Grouped layers merged) (hlayers : ∀ layer ∈ layers, Keyed (.object layer))
    (hv : ∀ layer ∈ layers, Agree (.object layer) v) : Agree (.object merged) v := by
  induction h with
  | one m => exact hv m (by simp)
  | join _ hupper ihlower ihupper =>
    obtain ⟨hbelow, habove⟩ := List.forall_mem_append.1 hlayers
    obtain ⟨hvbelow, hvabove⟩ := List.forall_mem_append.1 hv
    exact Agree.merge (hupper.keyed habove) (ihlower hbelow hvbelow) (ihupper habove hvabove)

/-- Layers in any grouping are laid over an object as if one after the other were. -/
theorem Grouped.merge_eq_foldl (h : Grouped layers merged)
    (hlayers : ∀ layer ∈ layers, Keyed (.object layer))
    (hagree : layers.Pairwise fun a b => Agree (.object a) (.object b)) (hbase : Keyed (.object base))
    (hover : ∀ layer ∈ layers, Agree (.object layer) (.object base)) :
    base.merge merged = layers.foldl merge base := by
  induction h generalizing base with
  | one m => rfl
  | @join below above lower upper hlower hupper ihlower ihupper =>
    obtain ⟨hbelow, habove⟩ := List.forall_mem_append.1 hlayers
    obtain ⟨hoverbelow, hoverabove⟩ := List.forall_mem_append.1 hover
    obtain ⟨hagreebelow, hagreeabove, hacross⟩ := List.pairwise_append.1 hagree
    have hbaselower : Agree (.object lower) (.object base) := hlower.agree hbelow hoverbelow
    have hbaseupper : Agree (.object upper) (.object base) := hupper.agree habove hoverabove
    have hlowerabove : ∀ layer ∈ above, Agree (.object lower) (.object layer) := fun layer hlayer =>
      hlower.agree hbelow fun l hl => hacross l hl layer hlayer
    -- The merge of the lower layers is a layer that agrees with the base and with all upper layers.
    have hlowerupper : Agree (.object lower) (.object upper) :=
      (hupper.agree habove fun layer hlayer => (hlowerabove layer hlayer).symm).symm
    calc base.merge (lower.merge upper)
        = (base.merge lower).merge upper :=
          (merge_assoc hbase (hlower.keyed hbelow) (hupper.keyed habove) hbaselower.symm hbaseupper.symm
            hlowerupper).symm
      _ = above.foldl merge (base.merge lower) := by
          apply ihupper habove hagreeabove (hbase.merge (hlower.keyed hbelow))
          intro layer hlayer
          exact (Agree.merge (hlower.keyed hbelow) (hoverabove layer hlayer).symm
            (hlowerabove layer hlayer)).symm
      _ = above.foldl merge (below.foldl merge base) := by
          rw [ihlower hbelow hagreebelow hbase hoverbelow]
      _ = (below ++ above).foldl merge base := List.foldl_append.symm

/-- Layers that agree may be merged in any grouping. -/
theorem Grouped.eq_merge (h : Grouped layers merged)
    (hlayers : ∀ layer ∈ layers, Keyed (.object layer))
    (hagree : layers.Pairwise fun a b => Agree (.object a) (.object b)) :
    merged = Layers.merge layers := by
  have hempty : ∀ layer ∈ layers, Agree (.object layer) (.object []) := by
    intro layer _ path x y hx hy
    cases path with
    | nil =>
      rw [valueAt?_nil] at hx hy
      rw [← Option.some.inj hx, ← Option.some.inj hy]
      rfl
    | cons key path => exact nomatch hy
  have hkeyed : Keyed (.object []) := .object List.nodup_nil fun _ _ hv => nomatch hv
  rw [Layers.merge, ← h.merge_eq_foldl hlayers hagree hkeyed hempty, nil_merge (h.keyed hlayers).nodup]

end Members

end Json

/-! ## Layers of a configuration -/

namespace Shaped

open Json

variable {m n : Members} {key : Text} {v : Json} {path : List Text}

/-- Each key of a group is the key of an option. -/
theorem exists_option {group : String × List String} (hgroup : group ∈ optionGroups) {key : String}
    (hkey : key ∈ group.2) : ∃ o : ConfigOption, o.group? = some group.1 ∧ o.key = key := by
  have hall : ∀ group ∈ optionGroups, ∀ key ∈ group.2,
      ∃ o ∈ [ConfigOption.pragma, .version, .mode, .depth, .style],
        o.group? = some group.1 ∧ o.key = key := by decide
  obtain ⟨o, -, ho⟩ := hall group hgroup key hkey
  exact ⟨o, ho⟩

/-- No value of an option is an object. -/
theorem not_isObject (h : Shaped m) {o : ConfigOption} (hv : o.get? m = some v) : v.isObject = false := by
  rw [Bool.eq_false_iff]
  intro hobject
  obtain ⟨members, rfl⟩ := exists_object_of_isObject hobject
  exact h.values o members hv

/-- A member of a configuration is a group of values that are no objects, or the value of an option. -/
theorem get?_cases (h : Shaped m) (hv : m.get? key = some v) :
    (∃ group ∈ optionGroups, key = Text.ofString group.1 ∧ ∃ members : Members, v = .object members ∧
      members.keys.Nodup ∧ ∀ k w, members.get? k = some w → w.isObject = false) ∨
    key = Text.ofString "rules" ∧ v.isObject = false := by
  have hknown : key ∈ optionGroups.map (Text.ofString ·.1) ∨ key = Text.ofString "rules" := by
    simpa [optionGroups, or_assoc] using h.known key (Members.mem_keys_of_get? hv)
  obtain hname | rfl := hknown
  · obtain ⟨group, hgroup, rfl⟩ := List.mem_map.1 hname
    obtain ⟨members, rfl, hnodup, hkeys⟩ := h.groups group hgroup v hv
    refine .inl ⟨group, hgroup, rfl, members, rfl, hnodup, ?_⟩
    intro k w hw
    obtain ⟨name, hname, rfl⟩ := List.mem_map.1 (hkeys k (Members.mem_keys_of_get? hw))
    obtain ⟨o, hogroup, rfl⟩ := exists_option hgroup hname
    apply h.not_isObject (o := o)
    rw [ConfigOption.get?_of_group hogroup, hv]
    exact hw
  · exact .inr ⟨rfl, h.not_isObject (o := .rules) hv⟩

theorem keyed (h : Shaped m) : Keyed (.object m) := by
  refine .object h.nodup ?_
  intro key v hv
  obtain ⟨_, -, -, members, rfl, hnodup, hatoms⟩ | ⟨-, hatom⟩ := h.get?_cases hv
  · exact .object hnodup fun k w hw => .atom (hatoms k w hw)
  · exact .atom hatom

/-- The objects of a configuration are itself and its groups. -/
theorem isObject_iff (h : Shaped m) (hv : (object m).valueAt? path = some v) :
    v.isObject = true ↔ path = [] ∨ ∃ group ∈ optionGroups, path = [Text.ofString group.1] := by
  cases path with
  | nil =>
    rw [valueAt?_nil] at hv
    rw [← Option.some.inj hv]
    exact iff_of_true rfl (.inl rfl)
  | cons key path =>
    rw [valueAt?_object] at hv
    obtain ⟨u, hu, hrest⟩ := Option.bind_eq_some_iff.1 hv
    obtain ⟨group, hgroup, rfl, members, rfl, -, hatoms⟩ | ⟨rfl, hatom⟩ := h.get?_cases hu
    · cases path with
      | nil =>
        rw [valueAt?_nil] at hrest
        rw [← Option.some.inj hrest]
        exact iff_of_true rfl (.inr ⟨group, hgroup, rfl⟩)
      | cons inner path =>
        -- In a group there are values only, and the path ends at one.
        rw [valueAt?_object] at hrest
        obtain ⟨w, hw, hrest⟩ := Option.bind_eq_some_iff.1 hrest
        have hend := valueAt?_eq_some_of_not_isObject (hatoms inner w hw) hrest
        rw [hend.2, hatoms inner w hw]
        simp
    · have hend := valueAt?_eq_some_of_not_isObject hatom hrest
      rw [hend.2, hend.1, hatom]
      simp [Given.ofString_inj, optionGroups]

/-- Configurations agree on what is an object. -/
theorem agree (hm : Shaped m) (hn : Shaped n) : Agree (.object m) (.object n) := by
  intro path x y hx hy
  rw [Bool.eq_iff_iff, hm.isObject_iff hx, hn.isObject_iff hy]

/-- The layers of a configuration may be merged in any grouping. -/
theorem merge_eq_of_grouped {layers : List Members} {merged : Members}
    (hlayers : ∀ layer ∈ layers, Shaped layer) (h : Members.Grouped layers merged) :
    merged = Layers.merge layers := by
  apply h.eq_merge fun layer hlayer => (hlayers layer hlayer).keyed
  apply List.pairwise_iff_forall_sublist.2
  intro lower upper hpair
  exact (hlayers lower (hpair.subset (by simp))).agree (hlayers upper (hpair.subset (by simp)))

end Shaped

namespace Json.Members

/-- **Merges of nested objects.**  A value that is no object stands at a path of a merge if it stands there
    in the upper object, or if it stands there in the lower one and the upper one has no value at the path
    and none but objects on the way to it.  Three objects that agree on which paths lead to objects come to
    the same in either grouping, and so does any number of layers. -/
theorem merge_at_paths_in_any_grouping :
    (∀ base upper : Members, Keyed (.object upper) → ∀ (path : List Text) (v : Json), v.isObject = false →
      ((object (base.merge upper)).valueAt? path = some v ↔
        (object upper).valueAt? path = some v ∨
          (object base).valueAt? path = some v ∧ ¬(object upper).Hides path)) ∧
    (∀ a b c : Members, Keyed (.object a) → Keyed (.object b) → Keyed (.object c) →
      Agree (.object a) (.object b) → Agree (.object a) (.object c) → Agree (.object b) (.object c) →
        (a.merge b).merge c = a.merge (b.merge c)) ∧
    ∀ (layers : List Members) (merged : Members), (∀ layer ∈ layers, Keyed (.object layer)) →
      (layers.Pairwise fun a b => Agree (.object a) (.object b)) → Grouped layers merged →
        merged = Layers.merge layers := by
  refine ⟨?_, ?_, ?_⟩
  · intro base upper hupper path v hv
    exact valueAt?_merge_iff hupper hv
  · intro a b c ha hb hc hab hac hbc
    exact merge_assoc ha hb hc hab hac hbc
  · intro layers merged hkeyed hagree hgrouped
    exact hgrouped.eq_merge hkeyed hagree

/-- A layer as the environment may give it. -/
def settingsLayer : Members := [("settings", .object [("version", .string "4"), ("pragma", .string "_")])]

/-- A layer as a manifest may give it. -/
def versionLayer : Members := [("settings", .object [("version", .int 3)])]

/-- A layer as a command line may give it. -/
def chainingLayer : Members :=
  [("settings", .object [("pragma", .null)]), ("chaining", .object [("mode", .string "never")])]

/-- The upper version is found and the lower pragma stays, and three layers are merged in either grouping. -/
theorem merge_at_paths_of_three_layers :
    (object (settingsLayer.merge versionLayer)).valueAt? ["settings", "version"] = some (.int 3) ∧
      (object (settingsLayer.merge versionLayer)).valueAt? ["settings", "pragma"] = some (.string "_") ∧
      (settingsLayer.merge versionLayer).merge chainingLayer =
        settingsLayer.merge (versionLayer.merge chainingLayer) ∧
      settingsLayer.merge (versionLayer.merge chainingLayer) =
        Layers.merge [settingsLayer, versionLayer, chainingLayer] := by
  have hsettings : Shaped settingsLayer := by
    show Shaped (Layers.ofSaid (Environment.word? ⟨some "4", some "_"⟩))
    exact Layers.shaped_ofSaid (Environment.word?_ne _)
  have hversion : Shaped versionLayer := by
    show Shaped (Layers.ofSaid (Layers.majorWord? (some 3)))
    exact Layers.shaped_ofSaid (Layers.majorWord?_ne _)
  have hchaining : Shaped chainingLayer := by
    show Shaped (Layers.ofSaid (Command.Arguments.word?
      ⟨[], .absent, .value .never, .absent, .absent, .absent, .empty, [], false, .absent, false⟩))
    exact Layers.shaped_ofSaid (Command.Arguments.word?_ne _)
  have hlower := hsettings.agree hversion
  have hacross := hsettings.agree hchaining
  have hupper := hversion.agree hchaining
  obtain ⟨hpaths, hassoc, hgrouping⟩ := merge_at_paths_in_any_grouping
  refine ⟨?_, ?_, ?_, ?_⟩
  · exact (hpaths _ _ hversion.keyed _ _ rfl).2 (.inl rfl)
  · exact (hpaths _ _ hversion.keyed _ _ rfl).2 (.inr ⟨rfl, by decide⟩)
  · exact hassoc _ _ _ hsettings.keyed hversion.keyed hchaining.keyed hlower hacross hupper
  · apply hgrouping
    · simp [hsettings.keyed, hversion.keyed, hchaining.keyed]
    · simp [hlower, hacross, hupper]
    · exact .join (.one _) (.join (.one _) (.one _))

end Json.Members

end LodashStyle
