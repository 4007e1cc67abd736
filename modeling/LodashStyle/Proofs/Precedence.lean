import LodashStyle.Command.Run
import LodashStyle.Proofs.GivenOptions

/-!
# Which layer decides

The layers of a configuration are merged as JSON objects and checked together.  What comes out is
decided option by option: the first layer that says something on an option gives its value, what the
layers below say on it is never read, and without a word from any layer the default stands.

## Key results

- `Shaped.get?_merge`, `Layers.get?_merge`: what a merge of layers says on an option
- `Layers.file_eq_ok_iff`: a configuration file is read as a whole, and says what stands in it
- `options_resolved_by_layer`: the configuration of a run, option by option
-/

namespace LodashStyle

open Schema

/-! ## Merged layers -/

section Merging

open ConfigOption

variable {lower upper : Json.Members}

/-- An option in a group is in a group that is known. -/
theorem ConfigOption.mem_optionGroups {o : ConfigOption} {group : String} (h : o.group? = some group) :
    ∃ keys, (group, keys) ∈ optionGroups := by
  cases o with
  | pragma | version => exact ⟨["pragma", "version"], by rw [← Option.some.inj h]; decide⟩
  | mode | depth => exact ⟨["mode", "depth"], by rw [← Option.some.inj h]; decide⟩
  | style => exact ⟨["style"], by rw [← Option.some.inj h]; decide⟩
  | rules => exact nomatch h

/-- The members of a group after a merge. -/
theorem Shaped.get?_group_merge (hlower : Shaped lower) (hupper : Shaped upper) {group : String}
    {keys : List String} (hgroup : (group, keys) ∈ optionGroups) :
    (lower.merge upper).get? group =
      match lower.get? group, upper.get? group with
      | some (.object below), some (.object above) => some (.object (Json.Members.merge below above))
      | said, none => said
      | _, said => said := by
  rw [Json.Members.get?_merge hupper.nodup]
  cases hu : upper.get? group with
  | none => cases lower.get? group with
    | none => rfl
    | some v => cases v <;> rfl
  | some v =>
    -- A group is an object on both sides, so that it is merged and never covered.
    obtain ⟨above, rfl, -, -⟩ := hupper.groups _ hgroup v hu
    dsimp only
    rw [overlay_object]
    cases hl : lower.get? group with
    | none => rfl
    | some w =>
      obtain ⟨below, rfl, -, -⟩ := hlower.groups _ hgroup w hl
      rfl

/-- Of two layers the upper one decides on each option on which it says something. -/
theorem Shaped.get?_merge (hlower : Shaped lower) (hupper : Shaped upper) (o : ConfigOption) :
    o.get? (lower.merge upper) = (o.get? upper).or (o.get? lower) := by
  cases hgroup : o.group? with
  | none =>
    have hplain : ∀ m : Json.Members, o.get? m = m.get? o.key := by
      intro m
      rw [ConfigOption.get?, hgroup]
    rw [hplain, hplain, hplain, Json.Members.get?_merge hupper.nodup]
    cases hu : upper.get? o.key with
    | none => rfl
    | some v =>
      have hv : ∀ members, v ≠ .object members := by
        rintro members rfl
        exact hupper.values o members ((hplain upper).trans hu)
      simp [overlay_of_ne hv]
  | some group =>
    obtain ⟨keys, hkeys⟩ := o.mem_optionGroups hgroup
    rw [get?_of_group hgroup, get?_of_group hgroup, get?_of_group hgroup,
      hlower.get?_group_merge hupper hkeys]
    cases hl : lower.get? group with
    | none => cases upper.get? group <;> simp [inObject]
    | some w =>
      obtain ⟨below, rfl, -, -⟩ := hlower.groups _ hkeys w hl
      cases hu : upper.get? group with
      | none => simp [inObject]
      | some v =>
        obtain ⟨above, rfl, hnodup, -⟩ := hupper.groups _ hkeys v hu
        simp only [inObject]
        rw [Json.Members.get?_merge hnodup]
        cases hkey : Json.Members.get? o.key above with
        | none => simp
        | some x =>
          -- The value of an option is no object, so that nothing is merged below it.
          have hx : ∀ members, x ≠ .object members := by
            rintro members rfl
            apply hupper.values o members
            rw [get?_of_group hgroup, hu]
            exact hkey
          simp [overlay_of_ne hx]

/-- Layers of the right shape are merged to one. -/
theorem Shaped.merge (hlower : Shaped lower) (hupper : Shaped upper) : Shaped (lower.merge upper) where
  nodup := Json.Members.nodup_keys_merge hlower.nodup
  known := by
    intro key hkey
    obtain hkey | hkey := Json.Members.mem_keys_merge.1 hkey
    · exact hlower.known key hkey
    · exact hupper.known key hkey
  groups := by
    rintro ⟨group, keys⟩ hgroup v hv
    dsimp only at hv ⊢
    rw [hlower.get?_group_merge hupper hgroup] at hv
    cases hu : upper.get? group with
    | none =>
      have hl : lower.get? group = some v := by
        rw [hu] at hv
        split at hv <;> simp_all
      exact hlower.groups _ hgroup v hl
    | some w =>
      obtain ⟨above, rfl, hnodup, hknown⟩ := hupper.groups _ hgroup w hu
      cases hl : lower.get? group with
      | none =>
        rw [hu, hl] at hv
        obtain rfl := Option.some.inj hv
        exact ⟨above, rfl, hnodup, hknown⟩
      | some w =>
        obtain ⟨below, rfl, hnodup', hknown'⟩ := hlower.groups _ hgroup w hl
        rw [hu, hl] at hv
        obtain rfl := Option.some.inj hv
        refine ⟨_, rfl, Json.Members.nodup_keys_merge hnodup', ?_⟩
        -- A key of the merged group comes from one of the two.
        intro key hkey
        obtain hkey | hkey := Json.Members.mem_keys_merge.1 hkey
        · exact hknown' key hkey
        · exact hknown key hkey
  values := by
    intro o members
    rw [hlower.get?_merge hupper, Ne, Option.or_eq_some_iff, not_or]
    exact ⟨hupper.values o members, fun h => hlower.values o members h.2⟩

end Merging

/-! ## Layers option by option -/

namespace Layers

/-- A layer made of groups, each of which may be missing. -/
def ofGroups (settings chaining pathStyle : Option Json.Members) (rules : Option Json) : Json.Members :=
  Given.member "settings" .object settings ++ Given.member "chaining" .object chaining ++
    Given.member "path_style" .object pathStyle ++ Given.member "rules" id rules

/-- Members with known keys, each once, and no objects as values. -/
structure IsGroup (keys : List String) (members : Json.Members) : Prop where
  nodup : members.keys.Nodup
  known : ∀ key ∈ members.keys, key ∈ keys.map Text.ofString
  values : ∀ (key : String) (inner : Json.Members), members.get? key ≠ some (.object inner)

section Groups

variable {settings chaining pathStyle : Option Json.Members} {rules : Option Json}

/-- Each group is found under its name. -/
theorem get?_group_ofGroups :
    (ofGroups settings chaining pathStyle rules).get? "settings" = settings.map .object ∧
      (ofGroups settings chaining pathStyle rules).get? "chaining" = chaining.map .object ∧
      (ofGroups settings chaining pathStyle rules).get? "path_style" = pathStyle.map .object ∧
      (ofGroups settings chaining pathStyle rules).get? "rules" = rules := by
  simp [ofGroups, Json.Members.get?_append, Given.get?_member]

/-- What a layer made of groups says on an option. -/
theorem get?_ofGroups (o : ConfigOption) :
    o.get? (ofGroups settings chaining pathStyle rules) =
      match o with
      | .pragma => settings.bind (Json.Members.get? "pragma")
      | .version => settings.bind (Json.Members.get? "version")
      | .mode => chaining.bind (Json.Members.get? "mode")
      | .depth => chaining.bind (Json.Members.get? "depth")
      | .style => pathStyle.bind (Json.Members.get? "style")
      | .rules => rules := by
  obtain ⟨hsettings, hchaining, hpath, hrules⟩ :=
    @get?_group_ofGroups settings chaining pathStyle rules
  have hobject : ∀ (key : String) (m : Option Json.Members),
      ConfigOption.inObject key (m.map .object) = m.bind (Json.Members.get? key) := by
    intro key m
    cases m <;> rfl
  cases o with
  | pragma | version => rw [ConfigOption.get?_of_group rfl, hsettings, hobject]; rfl
  | mode | depth => rw [ConfigOption.get?_of_group rfl, hchaining, hobject]; rfl
  | style => rw [ConfigOption.get?_of_group rfl, hpath, hobject]; rfl
  | rules => exact hrules

/-- Groups whose members are known options make up a layer. -/
theorem shaped_ofGroups (hsettings : ∀ m ∈ settings, IsGroup ["pragma", "version"] m)
    (hchaining : ∀ m ∈ chaining, IsGroup ["mode", "depth"] m)
    (hpath : ∀ m ∈ pathStyle, IsGroup ["style"] m) (hrules : ∀ inner, rules ≠ some (.object inner)) :
    Shaped (ofGroups settings chaining pathStyle rules) where
  nodup := by
    cases settings <;> cases chaining <;> cases pathStyle <;> cases rules <;>
      simp [ofGroups, Given.member, Json.Members.keys, Given.ofString_inj]
  known := by
    cases settings <;> cases chaining <;> cases pathStyle <;> cases rules <;>
      simp [ofGroups, Given.member, Json.Members.keys]
  groups := by
    -- A group that is there is an object, and its members are as they should be.
    have hgroup : ∀ {keys : List String} {m : Option Json.Members} {v : Json},
        (∀ members ∈ m, IsGroup keys members) → m.map Json.object = some v →
          ∃ members : Json.Members, v = .object members ∧ members.keys.Nodup ∧
            ∀ key ∈ members.keys, key ∈ keys.map Text.ofString := by
      intro keys m v hm hv
      obtain ⟨members, rfl, rfl⟩ := Option.map_eq_some_iff.1 hv
      have hmembers := hm members rfl
      exact ⟨members, rfl, hmembers.nodup, hmembers.known⟩
    obtain ⟨hs, hc, hp, -⟩ := @get?_group_ofGroups settings chaining pathStyle rules
    intro group hmem v hv
    simp only [optionGroups, List.mem_cons, List.not_mem_nil, or_false] at hmem
    obtain rfl | rfl | rfl := hmem
    · exact hgroup hsettings (hs.symm.trans hv)
    · exact hgroup hchaining (hc.symm.trans hv)
    · exact hgroup hpath (hp.symm.trans hv)
  values := by
    have hvalue : ∀ {keys : List String} {m : Option Json.Members} (key : String) (inner : Json.Members),
        (∀ members ∈ m, IsGroup keys members) → m.bind (Json.Members.get? key) ≠ some (.object inner) := by
      intro keys m key inner hm hv
      obtain ⟨members, rfl, hinner⟩ := Option.bind_eq_some_iff.1 hv
      exact (hm members rfl).values key inner hinner
    intro o inner
    rw [get?_ofGroups]
    cases o with
    | pragma | version => exact hvalue _ inner hsettings
    | mode | depth => exact hvalue _ inner hchaining
    | style => exact hvalue _ inner hpath
    | rules => exact hrules inner

end Groups

/-! ### Members of groups -/

/-- A group that is left out when it has no members. -/
def nonempty? (members : Json.Members) : Option Json.Members :=
  if members.isEmpty then none else some members

/-- A group without members is left out. -/
theorem group_eq (name : String) (members : Json.Members) :
    group name members = Given.member name .object (nonempty? members) := by
  cases members <;> rfl

/-- Leaving out an empty group loses no member. -/
theorem bind_nonempty? (members : Json.Members) (key : String) :
    (nonempty? members).bind (Json.Members.get? key) = members.get? key := by
  cases members <;> rfl

theorem IsGroup.of_nonempty? {keys : List String} {members : Json.Members} (h : IsGroup keys members) :
    ∀ m ∈ nonempty? members, IsGroup keys m := by
  intro m hm
  unfold nonempty? at hm
  split at hm
  · exact nomatch hm
  · obtain rfl := Option.some.inj hm
    exact h

/-- What two members of a group say. -/
theorem get?_pair {a b : String} (x y : Option Json) (key : String) :
    Json.Members.get? key (Given.member a id x ++ Given.member b id y) =
      (if a = key then x else none).or (if b = key then y else none) := by
  simp [Json.Members.get?_append, Given.get?_member]

/-- Two different options may stand in one group. -/
theorem isGroup_pair {keys : List String} {a b : String} {x y : Option Json} (hne : a ≠ b)
    (ha : a ∈ keys) (hb : b ∈ keys) (hx : ∀ inner, x ≠ some (.object inner))
    (hy : ∀ inner, y ≠ some (.object inner)) :
    IsGroup keys (Given.member a id x ++ Given.member b id y) where
  nodup := by
    cases x <;> cases y <;> simp [Given.member, Json.Members.keys, Given.ofString_inj, hne]
  known := by
    cases x <;> cases y <;> simp [Given.member, Json.Members.keys, Given.ofString_inj, ha, hb]
  values := by
    intro key inner h
    rw [get?_pair] at h
    obtain h | ⟨-, h⟩ := Option.or_eq_some_iff.1 h
    · split at h
      · exact hx inner h
      · cases h
    · split at h
      · exact hy inner h
      · cases h

/-- One option may stand in a group. -/
theorem isGroup_member {keys : List String} {a : String} {x : Option Json} (ha : a ∈ keys)
    (hx : ∀ inner, x ≠ some (.object inner)) : IsGroup keys (Given.member a id x) where
  nodup := by
    cases x <;> simp [Given.member, Json.Members.keys]
  known := by
    cases x <;> simp [Given.member, Json.Members.keys, Given.ofString_inj, ha]
  values := by
    intro key inner h
    rw [Given.get?_member, Option.map_id] at h
    split at h
    · exact hx inner h
    · cases h

/-! ### Layers that are made from options -/

/-- The layer that says something on some options. -/
def ofSaid (said : ConfigOption → Option Json) : Json.Members :=
  ofGroups
    (nonempty? (Given.member "version" id (said .version) ++ Given.member "pragma" id (said .pragma)))
    (nonempty? (Given.member "mode" id (said .mode) ++ Given.member "depth" id (said .depth)))
    (nonempty? (Given.member "style" id (said .style))) (said .rules)

/-- A layer made of what is said of each option says just that. -/
theorem get?_ofSaid (said : ConfigOption → Option Json) (o : ConfigOption) :
    o.get? (ofSaid said) = said o := by
  rw [ofSaid, get?_ofGroups]
  cases o <;> simp [bind_nonempty?, get?_pair, Given.get?_member]

/-- It has the shape of a layer, if nothing said of an option is an object. -/
theorem shaped_ofSaid {said : ConfigOption → Option Json}
    (h : ∀ o inner, said o ≠ some (.object inner)) : Shaped (ofSaid said) :=
  shaped_ofGroups
    (isGroup_pair (by decide) (by decide) (by decide) (h .version) (h .pragma)).of_nonempty?
    (isGroup_pair (by decide) (by decide) (by decide) (h .mode) (h .depth)).of_nonempty?
    (isGroup_member (by decide) (h .style)).of_nonempty? (h .rules)

/-- What a detected major says on an option: its version, if it is a supported one. -/
def majorWord? (major : Option Nat) : ConfigOption → Option Json
  | .version => (major.filter fun n => n == 3 || n == 4).map fun (n : Nat) => Json.int n
  | _ => none

theorem majorWord?_ne (major : Option Nat) (o : ConfigOption) (inner : Json.Members) :
    majorWord? major o ≠ some (.object inner) := by
  cases o <;> simp [majorWord?]

/-- A detected version makes up a layer with one option. -/
theorem outcome_detected (major : Option Nat) :
    (detected major).outcome = .ok (ofSaid (majorWord? major)) := by
  cases major with
  | none => rfl
  | some n =>
    -- A major beside the supported ones is logged, and says nothing.
    have hsupported : (Library.ofMajor? n).isSome = (n == 3 || n == 4) := by
      unfold Library.ofMajor?
      grind
    unfold detected
    dsimp only
    rw [hsupported]
    cases hn : (n == 3 || n == 4) with
    | false =>
      have hword : majorWord? (some n) .version = none := by simp [majorWord?, Option.filter, hn]
      simp [ofSaid, hword]
      rfl
    | true =>
      have hword : majorWord? (some n) .version = some (.int n) := by
        simp [majorWord?, Option.filter, hn]
      simp [ofSaid, hword]
      rfl

end Layers

/-- What the environment says on an option: nothing on most of them, nothing by an empty version,
    and that there is no pragma by an empty one. -/
def Environment.word? (e : Environment) : ConfigOption → Option Json
  | .pragma => e.pragma.map fun p => if p.isEmpty then .null else .string p
  | .version => (e.version.filter (!·.isEmpty)).map .string
  | _ => none

theorem Environment.word?_ne (e : Environment) (o : ConfigOption) (inner : Json.Members) :
    e.word? o ≠ some (.object inner) := by
  cases o with
  | pragma =>
    intro h
    obtain ⟨p, -, hp⟩ := Option.map_eq_some_iff.1 h
    split at hp <;> exact nomatch hp
  | version => simp [word?]
  | _ => exact nofun

/-- The layer of the environment says what its variables say. -/
theorem Layers.environment_eq (e : Environment) : environment e = ofSaid e.word? := by
  simp only [environment, group_eq, ofSaid, Environment.word?]
  cases e.version.filter (!·.isEmpty) <;> cases e.pragma <;> rfl

namespace Command

/-- What an operand says: nothing, or its value.  An empty list of values is one that no option
    has. -/
def Operand.word? {α : Type} (write : α → Json) : Operand α → Option Json
  | .absent => none
  | .empty => some (.array [])
  | .value x => some (write x)

/-- What a command line says on an option.  A pragma that is empty says that there is none. -/
def Arguments.word? (a : Arguments) : ConfigOption → Option Json
  | .pragma =>
    match a.pragma with
    | .absent => Option.none
    | .empty => some .null
    | .value t => some (if t.isEmpty then .null else .string t)
  | .version => a.lodashVersion.word? .int
  | .mode => a.chainingMode.word? fun m => .string m.name
  | .depth => a.chainingDepth.word? .int
  | .style => a.pathStyle.word? fun s => .string s.name
  | .rules =>
    if a.rules.isEmpty then Option.none
    else some (.array (a.rules.map fun
      | .value r => .string r.name
      | _ => .array []))

theorem Operand.word?_ne {α : Type} {write : α → Json} (hwrite : ∀ x inner, write x ≠ .object inner)
    (x : Operand α) (inner : Json.Members) : x.word? write ≠ some (.object inner) := by
  cases x with
  | absent => exact nofun
  | empty => exact nofun
  | value x => simpa [word?] using hwrite x inner

theorem Arguments.word?_ne (a : Arguments) (o : ConfigOption) (inner : Json.Members) :
    a.word? o ≠ some (.object inner) := by
  cases o with
  | pragma =>
    unfold word?
    dsimp only
    split
    · exact nofun
    · exact nofun
    · split <;> exact nofun
  | version => exact Operand.word?_ne (fun _ _ => Json.noConfusion) _ inner
  | mode => exact Operand.word?_ne (fun _ _ => Json.noConfusion) _ inner
  | depth => exact Operand.word?_ne (fun _ _ => Json.noConfusion) _ inner
  | style => exact Operand.word?_ne (fun _ _ => Json.noConfusion) _ inner
  | rules =>
    unfold word?
    dsimp only
    split <;> exact nofun

/-- An operand is a member of its group if it was given. -/
theorem Operand.member_eq {α : Type} (name : String) (write : α → Json) (x : Operand α) :
    x.member name write = Given.member name id (x.word? write) := by
  cases x <;> rfl

/-- The layer of the command line says what its arguments say. -/
theorem Arguments.layer_eq (a : Arguments) : a.layer = Layers.ofSaid a.word? := by
  simp only [layer, Layers.ofSaid, Layers.ofGroups, word?, Layers.group_eq, Operand.member_eq]
  cases a.pragma <;> cases a.rules <;> rfl

end Command

/-! ## The manifest -/

/-- What the manifest around a path declares: a major, or none where the range that stands there is
    refused. -/
def Npm.Detects (s : Store) (around : FilePath) (major : Option Nat) : Prop :=
  (Npm.detect s around).outcome = .ok major ∨
    major = none ∧ ∃ error, (Npm.detect s around).outcome = .error (.range error)

/-- The layer of a manifest is there for whatever major version is detected, also for none. -/
theorem Layers.manifest_eq_ok_iff {s : Store} {around : FilePath} {layer : Json.Members} :
    (manifest s around).outcome = .ok layer ↔
      ∃ major, Npm.Detects s around major ∧ layer = ofSaid (majorWord? major) := by
  unfold manifest Npm.Detects
  dsimp only
  split
  · rename_i major hmajor
    simp [hmajor, outcome_detected, eq_comm]
  · rename_i error hrange
    -- A range that is refused leaves the layer empty, as a missing one does.
    have hnone : ofSaid (majorWord? none) = [] := rfl
    simp [hrange, hnone, eq_comm]
  · rename_i fault hfault
    simp [hfault]

/-! ## The configuration file -/

/-- No option has an object as its value. -/
theorem ConfigOption.read_object_ne (o : ConfigOption) (members : Json.Members) (x : o.Value) :
    o.read (.object members) ≠ .ok x := by
  cases o <;> exact nofun

/-- What is given for the options is a layer of the right shape when it is written. -/
theorem Given.shaped_toMembers {v : Json} {g : Given} (h : check v = .ok g) : Shaped g.toMembers where
  nodup := by
    obtain ⟨settings, chaining, pathStyle, rules⟩ := g
    cases settings <;> cases chaining <;> cases pathStyle <;> cases rules <;>
      simp [toMembers, member, Json.Members.keys, ofString_inj]
  known := keys_toMembers g
  groups := by
    obtain ⟨hs, hc, hp, -⟩ := get?_toMembers g
    intro group hgroup v hv
    simp only [optionGroups, List.mem_cons, List.not_mem_nil, or_false] at hgroup
    obtain rfl | rfl | rfl := hgroup
    · obtain ⟨x, -, rfl⟩ := Option.map_eq_some_iff.1 (hs.symm.trans hv)
      refine ⟨_, rfl, ?_⟩
      cases x.pragma <;> cases x.library <;> simp [member, Json.Members.keys, ofString_inj]
    · obtain ⟨x, -, rfl⟩ := Option.map_eq_some_iff.1 (hc.symm.trans hv)
      refine ⟨_, rfl, ?_⟩
      cases x.mode <;> cases x.depth <;> simp [member, Json.Members.keys, ofString_inj]
    · obtain ⟨x, -, rfl⟩ := Option.map_eq_some_iff.1 (hp.symm.trans hv)
      refine ⟨_, rfl, ?_⟩
      cases x.style <;> simp [member, Json.Members.keys]
  values := by
    intro o members hmembers
    -- The members are checked again to what was given, so that each option reads its value there.
    have hread := ConfigOption.reads_givenIn (check_toJson h) o
    rw [hmembers] at hread
    cases hx : o.givenIn g with
    | none =>
      rw [hx] at hread
      cases hread
    | some x =>
      rw [hx] at hread
      obtain ⟨_, heq, hobject⟩ := hread.of_some
      rw [← Option.some.inj heq] at hobject
      exact o.read_object_ne members x hobject

/-- Two layers from which the same is read for an option resolve it alike. -/
theorem ConfigOption.resolved_or_congr {o : ConfigOption} {said said' : Option Json}
    {x : Option o.Value} (h : Reads o.read said x) (h' : Reads o.read said' x) (lower : Option Json)
    (y : o.Value) : o.Resolved (said.or lower) y ↔ o.Resolved (said'.or lower) y := by
  cases h with
  | none =>
    cases h'
    rfl
  | some hv =>
    obtain ⟨v', rfl, hv'⟩ := h'.of_some
    simp only [Option.some_or, Resolved, hv, hv']

namespace Layers

/-- The members of a configuration file that is accepted as a whole.  Without a file there are
    none. -/
def FileHolds (s : Store) : Option FilePath → Json.Members → Prop
  | none, members => members = []
  | some path, members =>
    s.readDocument path = .ok (.value (.object members)) ∧ ∃ g, Given.check (.object members) = .ok g

/-- A configuration file that is read holds a configuration. -/
theorem FileHolds.exists_given {s : Store} {path : Option FilePath} {members : Json.Members}
    (h : FileHolds s path members) : ∃ g, Given.check (.object members) = .ok g := by
  cases path with
  | none =>
    obtain rfl : members = [] := h
    exact ⟨_, rfl⟩
  | some path => exact h.2

/-- A file is read as a configuration if it holds an object that passes all checks. -/
theorem readConfig_eq_ok_iff {s : Store} {path : FilePath} {g : Given} :
    s.readConfig path = .ok g ↔ ∃ members : Json.Members,
      s.readDocument path = .ok (.value (.object members)) ∧ Given.check (.object members) = .ok g := by
  unfold Store.readConfig
  split
  · rename_i fault hfault
    simp [hfault]
  · rename_i reason hreason
    simp [hreason]
  · rename_i members hmembers
    simp [hmembers, mapError_eq_ok_iff]
  · rename_i v hv hdocument
    simp only [hdocument, reduceCtorEq, false_iff, not_exists, not_and]
    rintro members heq
    exact absurd (Document.value.inj (Except.ok.inj heq)) (hv members)

/-- A file that is read gives a layer from which the same is read for each option as from the members
    that stand in it. -/
theorem file_eq_ok_iff {s : Store} {path : Option FilePath} {layer : Json.Members} :
    file s path = .ok layer ↔ ∃ (members : Json.Members) (g : Given), FileHolds s path members ∧
      Given.check (.object members) = .ok g ∧ layer = g.toMembers := by
  cases path with
  | none =>
    have hnil : Given.check (.object []) = .ok ⟨none, none, none, none⟩ := rfl
    constructor
    · intro h
      obtain rfl := Except.ok.inj h
      exact ⟨[], _, rfl, hnil, rfl⟩
    · rintro ⟨members, g, rfl, hg, rfl⟩
      obtain rfl := Except.ok.inj (hnil.symm.trans hg)
      rfl
  | some path =>
    constructor
    · intro h
      obtain ⟨g, hg, rfl⟩ := map_eq_ok h
      obtain ⟨members, hmembers, hcheck⟩ := readConfig_eq_ok_iff.1 hg
      exact ⟨members, g, ⟨hmembers, g, hcheck⟩, hcheck, rfl⟩
    · rintro ⟨members, g, ⟨hmembers, -⟩, hg, rfl⟩
      rw [file, readConfig_eq_ok_iff.2 ⟨members, hmembers, hg⟩]
      rfl

end Layers

/-! ## All layers -/

namespace Layers

/-- A search looks at the first element and, failing that, at the others. -/
theorem findSome?_cons_or {α β : Type} (f : α → Option β) (x : α) (xs : List α) :
    (x :: xs).findSome? f = (f x).or (xs.findSome? f) := by
  rw [List.findSome?_cons]
  cases f x <;> rfl

theorem shaped_nil : Shaped [] := @shaped_ofSaid (fun _ => none) nofun

/-- The last layer is laid over all others. -/
theorem merge_concat (layers : List Json.Members) (top : Json.Members) :
    merge (layers ++ [top]) = (merge layers).merge top := by
  simp [merge]

/-- Layers laid over one another have the shape of a layer. -/
theorem shaped_merge {layers : List Json.Members} (h : ∀ layer ∈ layers, Shaped layer) :
    Shaped (merge layers) := by
  induction layers using List.reverseRecOn with
  | nil => exact shaped_nil
  | append_singleton layers top ih =>
    rw [merge_concat]
    exact (ih fun layer hlayer => h layer (List.mem_append_left _ hlayer)).merge (h top (by simp))

/-- Of merged layers the topmost one that says something on an option decides on it. -/
theorem get?_merge {layers : List Json.Members} (h : ∀ layer ∈ layers, Shaped layer)
    (o : ConfigOption) : o.get? (merge layers) = layers.reverse.findSome? o.get? := by
  -- The topmost layer is laid over the others last, so layers are taken off at the end.
  induction layers using List.reverseRecOn with
  | nil => cases o <;> rfl
  | append_singleton layers top ih =>
    have hbelow : ∀ layer ∈ layers, Shaped layer := fun layer hlayer =>
      h layer (List.mem_append_left _ hlayer)
    rw [merge_concat, (shaped_merge hbelow).get?_merge (h top (by simp)), ih hbelow,
      List.reverse_append, List.reverse_singleton, List.singleton_append, findSome?_cons_or]

end Layers

namespace Command

open Layers

/-- The configuration that a command line asks for, option by option.  The first layer that says
    something on an option decides on it: the command line, the members of the configuration file,
    the environment, the major of the manifest.  Where none does the default stands, and what stands
    in a layer below the one that decides does not matter.  The file has to be accepted as a whole;
    what is read from it, or from any other value, and written back is read as it was. -/
theorem options_resolved_by_layer (a : Arguments) (s : Store) (env : Environment) :
    (∀ c : Config, (a.resolve s env).outcome = .ok c ↔
      ∃ (major : Option Nat) (file : Json.Members),
        Npm.Detects s (FilePath.parse (a.files.headD [])) major ∧ FileHolds s a.configFile? file ∧
          ∀ o : ConfigOption,
            o.Resolved ([a.word? o, o.get? file, env.word? o, majorWord? major o].findSome? id)
              (o.valueIn c)) ∧
      ∀ (v : Json) (g : Given), Given.check v = .ok g → Given.check g.toJson = .ok g := by
  refine ⟨fun c => ?_, fun v g => Given.check_toJson⟩
  -- What the merge of the layers comes to, for a file that is read as `g`.
  have hmerged : ∀ (major : Option Nat) (file : Json.Members) (g : Given),
      Given.check (.object file) = .ok g →
        (Config.check (.object (merge [ofSaid (majorWord? major), environment env, g.toMembers, a.layer])) =
          .ok c ↔ ∀ o : ConfigOption,
            o.Resolved ([a.word? o, o.get? file, env.word? o, majorWord? major o].findSome? id)
              (o.valueIn c)) := by
    intro major file g hg
    have hshaped : ∀ layer ∈ [ofSaid (majorWord? major), environment env, g.toMembers, a.layer],
        Shaped layer := by
      simp only [List.forall_mem_cons, environment_eq, Arguments.layer_eq]
      exact ⟨shaped_ofSaid (majorWord?_ne major), shaped_ofSaid env.word?_ne, Given.shaped_toMembers hg,
        shaped_ofSaid a.word?_ne, nofun⟩
    rw [(shaped_merge hshaped).check_eq_ok_iff]
    refine forall_congr' fun o => ?_
    -- The file and what is written of it are read alike.
    have hfile := ConfigOption.resolved_or_congr
      (ConfigOption.reads_givenIn (Given.check_toJson hg) o) (ConfigOption.reads_givenIn hg o)
    rw [get?_merge hshaped]
    simp only [List.reverse_cons, List.reverse_nil, List.nil_append, List.cons_append,
      findSome?_cons_or, environment_eq, Arguments.layer_eq, get?_ofSaid, id]
    -- What the command line says hides the file; else the file stands above the other two.
    cases a.word? o with
    | some v => rfl
    | none => exact hfile _ _
  unfold Arguments.resolve Config.resolve
  simp only [Run.bind_eq_ok_iff, Run.outcome_ofExcept, Run.mapError, mapError_eq_ok_iff,
    manifest_eq_ok_iff, file_eq_ok_iff]
  constructor
  · rintro ⟨_, ⟨major, hmajor, rfl⟩, _, ⟨file, g, hfile, hg, rfl⟩, hc⟩
    exact ⟨major, file, hmajor, hfile, (hmerged major file g hg).1 hc⟩
  · rintro ⟨major, file, hmajor, hfile, hc⟩
    obtain ⟨g, hg⟩ := hfile.exists_given
    exact ⟨_, ⟨major, hmajor, rfl⟩, _, ⟨file, g, hfile, hg, rfl⟩, (hmerged major file g hg).2 hc⟩

/-- A project whose manifest declares the fourth release. -/
def projectOnFour : Store :=
  ⟨[], [(["a.js"], .file []),
    (["package.json"], .file (Utf8.encode "\x7b\"dependencies\": \x7b\"lodash\": \"^4.17.0\"\x7d\x7d".toList))]⟩

/-- The command line hides a version in the environment that would be refused, and the one of the
    manifest; the empty pragma of the environment stands, as nothing is said above it. -/
theorem hidden_version_not_read :
    ((⟨["a.js"], .absent, .absent, .absent, .absent, .value 3, .absent, [], false, .absent, false⟩ :
        Arguments).resolve projectOnFour ⟨some "nine", some ""⟩).outcome =
      .ok { settings := { pragma := none, library := .v3 } } ∧
      Given.check (.object [("settings", .object [("pragma", .string " $ ")])]) =
        .ok ⟨some ⟨some (some "$"), none⟩, none, none, none⟩ ∧
      Given.check (Given.toJson ⟨some ⟨some (some "$"), none⟩, none, none, none⟩) =
        .ok ⟨some ⟨some (some "$"), none⟩, none, none, none⟩ := by
  have hcheck : Given.check (.object [("settings", .object [("pragma", .string " $ ")])]) =
      .ok ⟨some ⟨some (some "$"), none⟩, none, none, none⟩ := eq_ok_of_toOption (by decide +kernel)
  obtain ⟨hresolved, hback⟩ := options_resolved_by_layer
    ⟨["a.js"], .absent, .absent, .absent, .absent, .value 3, .absent, [], false, .absent, false⟩
    projectOnFour ⟨some "nine", some ""⟩
  refine ⟨(hresolved _).2 ⟨some 4, [], .inl (eq_ok_of_toOption (by decide +kernel)), rfl, ?_⟩, hcheck,
    hback _ _ hcheck⟩
  intro o
  cases o <;> rfl

end Command

end LodashStyle
