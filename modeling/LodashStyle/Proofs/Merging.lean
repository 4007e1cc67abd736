import LodashStyle.Json.Basic

/-!
# Members laid over one another

`Members.merge` lays the members of one object over those of another, one after the other.  Where
no key is given twice, the outcome is read off key by key: a key of the upper object holds its value
there, laid over what stood below, and every other key is untouched.

## Key results

- `overlay_object`, `overlay_of_ne`: an object is merged with an object below it, any other value covers
  what stands below it
- `get?_merge`: the value under a key after a merge
- `keys_merge`, `mem_keys_merge`, `nodup_keys_merge`: the keys after a merge
- `eq_of_get?`: members are known from their keys and the values under them
-/

namespace LodashStyle

theorem overlay_object (base : Option Json) (members : Json.Members) :
    Json.overlay base (.object members) =
      match base with
      | some (.object below) => .object (Json.Members.merge below members)
      | _ => .object members := by
  cases base with
  | none => rw [Json.overlay]; simp
  | some v => cases v <;> simp [Json.overlay, Json.Members.merge]

/-- A value that is no object covers what stands below it. -/
theorem overlay_of_ne {base : Option Json} {v : Json} (h : ∀ members, v ≠ .object members) :
    Json.overlay base v = v := by
  cases v with
  | object members => exact absurd rfl (h members)
  | _ => simp [Json.overlay]

/-- With nothing below it a value stays as it is. -/
theorem overlay_none (v : Json) : Json.overlay none v = v := by
  cases v with
  | object members => rw [overlay_object]
  | _ => exact overlay_of_ne fun members => nofun

namespace Json.Members

/-- A value is found under the keys of an object and under no other. -/
theorem get?_eq_none_iff {m : Members} {key : Text} : m.get? key = none ↔ key ∉ m.keys := by
  induction m with
  | nil => simp [get?, keys]
  | cons entry rest ih =>
    obtain ⟨k, v⟩ := entry
    have hkeys : keys ((k, v) :: rest) = k :: keys rest := rfl
    rw [hkeys, List.mem_cons, not_or, get?]
    split
    · rename_i hk
      simp [hk]
    · rename_i hk
      rw [ih]
      exact ⟨fun h => ⟨fun heq => hk heq.symm, h⟩, fun h => h.2⟩

/-- A key with a value is among the keys. -/
theorem mem_keys_of_get? {m : Members} {key : Text} {v : Json} (h : m.get? key = some v) : key ∈ m.keys := by
  by_cases hkey : key ∈ m.keys
  · exact hkey
  · rw [get?_eq_none_iff.2 hkey] at h
    exact nomatch h

/-- Members with the same keys in the same order and the same values under them are the same. -/
theorem eq_of_get? {m n : Members} (hkeys : m.keys = n.keys) (hnodup : m.keys.Nodup)
    (hget : ∀ key, m.get? key = n.get? key) : m = n := by
  induction m generalizing n with
  | nil => exact (List.map_eq_nil_iff.1 hkeys.symm).symm
  | cons entry m ih =>
    obtain ⟨k, v⟩ := entry
    cases n with
    | nil => exact nomatch hkeys
    | cons entry' n =>
      obtain ⟨k', v'⟩ := entry'
      obtain ⟨rfl, htail⟩ : k = k' ∧ keys m = keys n := List.cons.inj hkeys
      obtain ⟨hk, hnodup⟩ := List.nodup_cons.1 hnodup
      have hv : v = v' := by
        have hfirst := hget k
        rw [get?, get?, if_pos rfl, if_pos rfl] at hfirst
        exact Option.some.inj hfirst
      -- The first key stands in neither rest, where the look-ups do not tell.
      have hrest : m = n := by
        apply ih htail hnodup
        intro key
        by_cases hkey : k = key
        · subst hkey
          rw [get?_eq_none_iff.2 hk, get?_eq_none_iff.2 (htail ▸ hk)]
        · have hrest := hget key
          rwa [get?, get?, if_neg hkey, if_neg hkey] at hrest
      rw [hv, hrest]

theorem get?_append (m n : Members) (key : Text) :
    get? key (m ++ n) = (m.get? key).or (n.get? key) := by
  induction m with
  | nil => rfl
  | cons entry rest ih =>
    obtain ⟨k, v⟩ := entry
    rw [List.cons_append, get?, get?, ih]
    split <;> rfl

/-- A key that is there is put in place, and a new one at the end. -/
theorem keys_put (m : Members) (key : Text) (value : Json) :
    (m.put key value).keys = if key ∈ m.keys then m.keys else m.keys ++ [key] := by
  induction m with
  | nil => rfl
  | cons entry rest ih =>
    obtain ⟨k, v⟩ := entry
    have hkeys : keys ((k, v) :: rest) = k :: keys rest := rfl
    rw [put, hkeys]
    by_cases hk : k = key
    · rw [if_pos hk, if_pos (by simp [hk])]
      rfl
    · have hkeys' : keys ((k, v) :: put key value rest) = k :: keys (put key value rest) := rfl
      rw [if_neg hk, hkeys', ih]
      by_cases hmem : key ∈ keys rest <;> simp [hmem, Ne.symm hk]

/-- What stands under a key after a merge. -/
theorem get?_merge {base upper : Members} (h : upper.keys.Nodup) (key : Text) :
    get? key (base.merge upper) =
      match upper.get? key with
      | none => base.get? key
      | some value => some (overlay (base.get? key) value) := by
  rw [merge]
  induction upper generalizing base with
  | nil => rw [mergeMembers, get?]
  | cons entry rest ih =>
    obtain ⟨k, v⟩ := entry
    obtain ⟨hk, hrest⟩ := List.nodup_cons.1 h
    rw [mergeMembers, ih hrest, get?, get?_put]
    -- The first key is not put again, so that its value stays.
    by_cases hkey : k = key
    · subst hkey
      rw [get?_eq_none_iff.2 hk, if_pos rfl, if_pos rfl]
    · rw [if_neg hkey, if_neg hkey]

/-- Merging loses no key and adds none. -/
theorem mem_keys_merge {base upper : Members} {key : Text} :
    key ∈ (base.merge upper).keys ↔ key ∈ base.keys ∨ key ∈ upper.keys := by
  rw [merge]
  induction upper generalizing base with
  | nil => simp [mergeMembers, keys]
  | cons entry rest ih =>
    obtain ⟨k, v⟩ := entry
    have hkeys : keys ((k, v) :: rest) = k :: keys rest := rfl
    rw [mergeMembers, ih, keys_put, hkeys, List.mem_cons]
    split
    · rename_i hk
      constructor
      · rintro (hbase | hrest)
        · exact .inl hbase
        · exact .inr (.inr hrest)
      · rintro (hbase | rfl | hrest)
        · exact .inl hbase
        · exact .inl hk
        · exact .inr hrest
    · rw [List.mem_append, List.mem_singleton, or_assoc]

/-- After a merge the keys that are new come last. -/
theorem keys_merge {base upper : Members} (h : upper.keys.Nodup) :
    (base.merge upper).keys = base.keys ++ upper.keys.filter (· ∉ base.keys) := by
  rw [merge]
  induction upper generalizing base with
  | nil => simp [mergeMembers, keys]
  | cons entry rest ih =>
    obtain ⟨k, v⟩ := entry
    obtain ⟨hk, hrest⟩ : k ∉ keys rest ∧ (keys rest).Nodup := List.nodup_cons.1 h
    have hkeys : keys ((k, v) :: rest) = k :: keys rest := rfl
    rw [mergeMembers, ih hrest, keys_put, hkeys]
    by_cases hbase : k ∈ base.keys
    · simp [hbase]
    · -- The first key is not among the others, so that it makes no difference for them.
      have hothers : (keys rest).filter (· ∉ base.keys ++ [k]) = (keys rest).filter (· ∉ base.keys) := by
        apply List.filter_congr
        intro key hkey
        have hne : key ≠ k := fun heq => hk (heq ▸ hkey)
        simp [hne]
      rw [if_neg hbase, hothers]
      simp [hbase]

/-- A merge gives no key twice. -/
theorem nodup_keys_merge {base upper : Members} (h : base.keys.Nodup) :
    (base.merge upper).keys.Nodup := by
  rw [merge]
  induction upper generalizing base with
  | nil =>
    rw [mergeMembers]
    exact h
  | cons entry rest ih =>
    obtain ⟨k, v⟩ := entry
    rw [mergeMembers]
    -- Putting in one member gives no key twice, and the others are laid over what is there then.
    apply ih
    rw [keys_put]
    split
    · exact h
    · rename_i hk
      refine List.nodup_append.2 ⟨h, List.pairwise_singleton _ k, ?_⟩
      intro a ha b hb hab
      rw [List.mem_singleton.1 hb] at hab
      exact hk (hab ▸ ha)

theorem nil_merge {m : Members} (h : m.keys.Nodup) : merge [] m = m := by
  have hkeys : (merge [] m).keys = m.keys := by
    rw [keys_merge h]
    simp [keys]
  apply eq_of_get? hkeys (hkeys ▸ h)
  intro key
  rw [get?_merge h]
  cases m.get? key with
  | none => rfl
  | some v => exact congrArg some (overlay_none v)

end Json.Members

end LodashStyle
