import LodashStyle.Config.Given
import LodashStyle.Proofs.Merging
import LodashStyle.Proofs.Outcomes
import Mathlib.Data.List.DropRight

/-!
# Options one by one

A configuration is checked as a whole, but each option is read by itself: a value is given for it or
not, and a default stands in for a value that is not given.  `ConfigOption` names the options, so
that a statement about all of them is made once.

## Key results

- `check_eq_ok_iff`: a configuration written as JSON is accepted when each of its groups is
- `check_toJson`: options that were read and are written back are read as they were
- `Shaped.check_eq_ok_iff`: a configuration of the right shape has a value for each option, read
  from what is given for it or taken from the defaults
-/

namespace LodashStyle

open Schema

/-! ## Checks -/

namespace Schema

variable {α β γ : Type}

/-- A value that is read from what is given, or nothing where nothing is given. -/
abbrev Reads (check : Json → Checked α) (given : Option Json) (x : Option α) : Prop :=
  Option.Rel (fun v y => check v = .ok y) given x

theorem Reads.of_some {check : Json → Checked α} {given : Option Json} {x : α}
    (h : Reads check given (some x)) : ∃ v, given = some v ∧ check v = .ok x := by
  match given, h with
  | some v, .some hv => exact ⟨v, rfl, hv⟩

theorem Reads.of_none {check : Json → Checked α} {x : Option α} (h : Reads check none x) : x = none := by
  match x, h with
  | none, .none => rfl

theorem map_both_eq_ok_iff {a : Checked α} {b : Checked β} {f : α × β → γ} {z : γ} :
    (both a b).map f = .ok z ↔ ∃ x y, a = .ok x ∧ b = .ok y ∧ f (x, y) = z := by
  cases a <;> cases b <;> simp [both, Except.map]

theorem both_eq_ok_iff {a : Checked α} {b : Checked β} {p : α × β} :
    both a b = .ok p ↔ a = .ok p.1 ∧ b = .ok p.2 := by
  obtain ⟨x, y⟩ := p
  cases a <;> cases b <;> simp [both]

theorem optional_eq_ok_iff {name : String} {check : Json → Checked α} {members : Json.Members}
    {x : Option α} : optional name check members = .ok x ↔ Reads check (members.get? name) x := by
  unfold optional
  cases members.get? name with
  | none =>
    cases x with
    | none => simp
    | some y => simp
  | some v =>
    dsimp only
    rw [behind, mapError_eq_ok_iff]
    cases hv : check v with
    | error issues =>
      cases x with
      | none => simp [Except.map]
      | some y => simp [Except.map, hv]
    | ok z =>
      cases x with
      | none => simp [Except.map]
      | some y => simp [Except.map, hv]

/-- Only known keys are accepted. -/
theorem onlyKeys_eq_ok_iff {names : List String} {members : Json.Members} {u : Unit} :
    onlyKeys names members = .ok u ↔ ∀ key ∈ members.keys, key ∈ names.map Text.ofString := by
  have hunknown : (members.filter fun m => !(names.map Text.ofString).contains m.1) = [] ↔
      ∀ key ∈ members.keys, key ∈ names.map Text.ofString := by
    simp [List.filter_eq_nil_iff, Json.Members.keys]
  rw [← hunknown]
  unfold onlyKeys
  dsimp only
  split
  · rename_i hnil
    exact iff_of_true rfl hnil
  · rename_i hne
    refine iff_of_false (fun h => ?_) hne
    cases h

end Schema

namespace Given

/-! ## Groups of options -/

/-- Settings are accepted when their members are, and there are no others. -/
theorem settingsOf_eq_ok_iff {v : Json} {g : GivenSettings} :
    settingsOf v = .ok g ↔ ∃ members : Json.Members, v = .object members ∧
      Reads pragma (members.get? "pragma") g.pragma ∧ Reads library (members.get? "version") g.library ∧
      ∀ key ∈ members.keys, key ∈ ["pragma", "version"].map Text.ofString := by
  cases v with
  | object members =>
    simp only [settingsOf, object, map_both_eq_ok_iff, both_eq_ok_iff, optional_eq_ok_iff, onlyKeys_eq_ok_iff]
    constructor
    · rintro ⟨⟨p, l⟩, _, ⟨hpragma, hlibrary⟩, hkeys, rfl⟩
      exact ⟨members, rfl, hpragma, hlibrary, hkeys⟩
    · rintro ⟨_, heq, hpragma, hlibrary, hkeys⟩
      obtain rfl := Json.object.inj heq
      exact ⟨(g.pragma, g.library), (), ⟨hpragma, hlibrary⟩, hkeys, rfl⟩
  | _ => simp [settingsOf, object, refuse]

/-- Options on chains are accepted when their members are, and there are no others. -/
theorem chainingOf_eq_ok_iff {v : Json} {g : GivenChaining} :
    chainingOf v = .ok g ↔ ∃ members : Json.Members, v = .object members ∧
      Reads (choice [.always, .never, .implicit] ChainMode.name) (members.get? "mode") g.mode ∧
      Reads (natural 2) (members.get? "depth") g.depth ∧
      ∀ key ∈ members.keys, key ∈ ["mode", "depth"].map Text.ofString := by
  cases v with
  | object members =>
    simp only [chainingOf, object, map_both_eq_ok_iff, both_eq_ok_iff, optional_eq_ok_iff, onlyKeys_eq_ok_iff]
    constructor
    · rintro ⟨⟨m, d⟩, _, ⟨hmode, hdepth⟩, hkeys, rfl⟩
      exact ⟨members, rfl, hmode, hdepth, hkeys⟩
    · rintro ⟨_, heq, hmode, hdepth, hkeys⟩
      obtain rfl := Json.object.inj heq
      exact ⟨(g.mode, g.depth), (), ⟨hmode, hdepth⟩, hkeys, rfl⟩
  | _ => simp [chainingOf, object, refuse]

/-- Options on paths are accepted when their members are, and there are no others. -/
theorem pathStyleOf_eq_ok_iff {v : Json} {g : GivenPathStyle} :
    pathStyleOf v = .ok g ↔ ∃ members : Json.Members, v = .object members ∧
      Reads (choice [.asNeeded, .array, .string] PathStyle.name) (members.get? "style") g.style ∧
      ∀ key ∈ members.keys, key ∈ ["style"].map Text.ofString := by
  cases v with
  | object members =>
    simp only [pathStyleOf, object, map_both_eq_ok_iff, optional_eq_ok_iff, onlyKeys_eq_ok_iff]
    constructor
    · rintro ⟨s, _, hstyle, hkeys, rfl⟩
      exact ⟨members, rfl, hstyle, hkeys⟩
    · rintro ⟨_, heq, hstyle, hkeys⟩
      obtain rfl := Json.object.inj heq
      exact ⟨g.style, (), hstyle, hkeys, rfl⟩
  | _ => simp [pathStyleOf, object, refuse]

/-- A configuration is accepted when its groups are, and there are no other members. -/
theorem check_eq_ok_iff {v : Json} {g : Given} :
    check v = .ok g ↔ ∃ members : Json.Members, v = .object members ∧
      Reads settingsOf (members.get? "settings") g.settings ∧
      Reads chainingOf (members.get? "chaining") g.chaining ∧
      Reads pathStyleOf (members.get? "path_style") g.pathStyle ∧
      Reads rulesOf (members.get? "rules") g.rules ∧
      ∀ key ∈ members.keys, key ∈ ["settings", "chaining", "path_style", "rules"].map Text.ofString := by
  cases v with
  | object members =>
    simp only [check, object, map_both_eq_ok_iff, both_eq_ok_iff, optional_eq_ok_iff, onlyKeys_eq_ok_iff]
    constructor
    · rintro ⟨⟨⟨⟨s, c⟩, p⟩, r⟩, _, ⟨⟨⟨hsettings, hchaining⟩, hpath⟩, hrules⟩, hkeys, rfl⟩
      exact ⟨members, rfl, hsettings, hchaining, hpath, hrules, hkeys⟩
    · rintro ⟨_, heq, hsettings, hchaining, hpath, hrules, hkeys⟩
      obtain rfl := Json.object.inj heq
      exact ⟨(((g.settings, g.chaining), g.pathStyle), g.rules), (),
        ⟨⟨⟨hsettings, hchaining⟩, hpath⟩, hrules⟩, hkeys, rfl⟩
  | _ => simp [check, object, refuse]

/-! ## Writing back -/

/-- A text without white space at its ends stays as it is. -/
theorem trim_trim (t : Text) : t.trim.trim = t.trim := by
  let front := t.dropWhile CodePoint.isSpace
  have htrim : t.trim = front.rdropWhile CodePoint.isSpace := rfl
  -- What is left starts as the text without the white space in front does.
  have hfront : t.trim.dropWhile CodePoint.isSpace = t.trim := by
    rw [htrim, List.dropWhile_eq_self_iff]
    intro hpos
    have hprefix : front.rdropWhile CodePoint.isSpace <+: front := List.rdropWhile_prefix _ _
    have hlength : 0 < front.length := Nat.lt_of_lt_of_le hpos hprefix.length_le
    have hhead : ¬CodePoint.isSpace front[0] := List.dropWhile_get_zero_not _ t hlength
    rwa [← hprefix.getElem hpos] at hhead
  have htwice : t.trim.trim = (t.trim.dropWhile CodePoint.isSpace).rdropWhile CodePoint.isSpace := rfl
  rw [htwice, hfront, htrim]
  exact List.rdropWhile_idempotent _ front

/-- An identifier that was read is read again. -/
theorem pragma_pragmaJson {v : Json} {p : Option Text} (h : pragma v = .ok p) :
    pragma (pragmaJson p) = .ok p := by
  unfold pragma at h
  split at h
  · exact nomatch h
  · obtain rfl := Except.ok.inj h
    rfl
  · dsimp only at h
    split at h
    · obtain rfl := Except.ok.inj h
      rfl
    · rename_i hblank
      -- What is kept has been trimmed, so that nothing is cut off when it is read again.
      split at h
      · rename_i t _ hname
        obtain rfl := Except.ok.inj h
        simp [pragma, pragmaJson, text?, Schema.text, Except.map, trim_trim, hblank, hname]
      · exact nomatch h

theorem library_int (l : Library) : library (.int l.major) = .ok l := by
  cases l <;> rfl

theorem natural_int (d : { n : Nat // 2 ≤ n }) : natural 2 (.int d.val) = .ok d := by
  simp [natural, integer, d.property]

theorem rulesOf_rulesJson (s : RuleSet) : rulesOf (rulesJson s) = .ok s := by
  obtain ⟨chaining, pathStyle, nonempty⟩ := s
  cases chaining <;> cases pathStyle
  · exact absurd nonempty (by decide)
  all_goals rfl

theorem ofString_inj {a b : String} : Text.ofString a = Text.ofString b ↔ a = b := by
  have hscalar : Function.Injective CodePoint.scalar := fun _ _ => CodePoint.scalar.inj
  rw [Text.ofString, Text.ofString, Text.ofChars, Text.ofChars, (List.map_injective_iff.2 hscalar).eq_iff,
    String.toList_inj]

/-- A member for what was given stands under its name only. -/
theorem get?_member {α : Type} (name key : String) (write : α → Json) (x : Option α) :
    Json.Members.get? key (member name write x) = if name = key then x.map write else none := by
  cases x <;> simp [member, Json.Members.get?, ofString_inj]

/-- Settings that were read are read again as they are written. -/
theorem settingsOf_settingsJson {v : Json} {g : GivenSettings} (h : settingsOf v = .ok g) :
    settingsOf (settingsJson g) = .ok g := by
  -- Not every text is a pragma, so it matters that this one was read; any release can be written.
  obtain ⟨members, -, hpragma, -, -⟩ := settingsOf_eq_ok_iff.1 h
  refine settingsOf_eq_ok_iff.2 ⟨_, rfl, ?_, ?_, ?_⟩
  · simp only [Json.Members.get?_append, get?_member]
    cases hp : g.pragma with
    | none => simp
    | some p =>
      rw [hp] at hpragma
      obtain ⟨w, -, hread⟩ := hpragma.of_some
      simpa using pragma_pragmaJson hread
  · simp only [Json.Members.get?_append, get?_member]
    cases g.library with
    | none => simp
    | some l => simpa using library_int l
  · cases g.pragma <;> cases g.library <;> simp [member, Json.Members.keys]

theorem chainingOf_chainingJson (g : GivenChaining) : chainingOf (chainingJson g) = .ok g := by
  refine chainingOf_eq_ok_iff.2 ⟨_, rfl, ?_, ?_, ?_⟩
  · simp only [Json.Members.get?_append, get?_member]
    cases g.mode with
    | none => simp
    | some m => cases m <;> exact .some rfl
  · simp only [Json.Members.get?_append, get?_member]
    cases g.depth with
    | none => simp
    | some d => simpa using natural_int d
  · cases g.mode <;> cases g.depth <;> simp [member, Json.Members.keys]

theorem pathStyleOf_pathStyleJson (g : GivenPathStyle) : pathStyleOf (pathStyleJson g) = .ok g := by
  refine pathStyleOf_eq_ok_iff.2 ⟨_, rfl, ?_, ?_⟩
  · rw [get?_member]
    cases g.style with
    | none => simp
    | some s => cases s <;> exact .some rfl
  · cases g.style <;> simp [member, Json.Members.keys]

/-- What was given and is written stands under the names of its groups. -/
theorem get?_toMembers (g : Given) :
    g.toMembers.get? "settings" = g.settings.map settingsJson ∧
      g.toMembers.get? "chaining" = g.chaining.map chainingJson ∧
      g.toMembers.get? "path_style" = g.pathStyle.map pathStyleJson ∧
      g.toMembers.get? "rules" = g.rules.map rulesJson := by
  simp [toMembers, Json.Members.get?_append, get?_member]

theorem keys_toMembers (g : Given) :
    ∀ key ∈ g.toMembers.keys, key ∈ ["settings", "chaining", "path_style", "rules"].map Text.ofString := by
  obtain ⟨settings, chaining, pathStyle, rules⟩ := g
  cases settings <;> cases chaining <;> cases pathStyle <;> cases rules <;>
    simp [toMembers, member, Json.Members.keys]

/-- Options that were read are read again as they are written. -/
theorem check_toJson {v : Json} {g : Given} (h : check v = .ok g) : check g.toJson = .ok g := by
  obtain ⟨members, -, hsettings, -, -, -, -⟩ := check_eq_ok_iff.1 h
  obtain ⟨hs, hc, hp, hr⟩ := get?_toMembers g
  refine check_eq_ok_iff.2 ⟨g.toMembers, rfl, ?_, ?_, ?_, ?_, keys_toMembers g⟩
  · rw [hs]
    cases hg : g.settings with
    | none => exact .none
    | some s =>
      -- The settings were read, so that they are ones which are read back.
      rw [hg] at hsettings
      obtain ⟨w, -, hread⟩ := hsettings.of_some
      exact .some (settingsOf_settingsJson hread)
  · rw [hc]
    cases g.chaining with
    | none => exact .none
    | some c => exact .some (chainingOf_chainingJson c)
  · rw [hp]
    cases g.pathStyle with
    | none => exact .none
    | some p => exact .some (pathStyleOf_pathStyleJson p)
  · rw [hr]
    cases g.rules with
    | none => exact .none
    | some r => exact .some (rulesOf_rulesJson r)

end Given

/-! ## The options -/

/-- The options of a configuration. -/
inductive ConfigOption where
  | pragma
  | version
  | mode
  | depth
  | style
  | rules
  deriving DecidableEq, Repr

namespace ConfigOption

/-- The values of an option. -/
def Value : ConfigOption → Type
  | .pragma => Option Text
  | .version => Library
  | .mode => ChainMode
  | .depth => { n : Nat // 2 ≤ n }
  | .style => PathStyle
  | .rules => RuleSet

/-- The value of an option in a configuration. -/
def valueIn (c : Config) : (o : ConfigOption) → o.Value
  | .pragma => c.settings.pragma
  | .version => c.settings.library
  | .mode => c.chaining.mode
  | .depth => ⟨c.chaining.depth, c.chaining.two_le_depth⟩
  | .style => c.pathStyle
  | .rules => c.rules

/-- The value that is given for an option, if one is. -/
def givenIn (g : Given) : (o : ConfigOption) → Option o.Value
  | .pragma => g.settings.bind (·.pragma)
  | .version => g.settings.bind (·.library)
  | .mode => g.chaining.bind (·.mode)
  | .depth => g.chaining.bind (·.depth)
  | .style => g.pathStyle.bind (·.style)
  | .rules => g.rules

/-- Reads a value of an option. -/
def read : (o : ConfigOption) → Json → Checked o.Value
  | .pragma => Given.pragma
  | .version => Given.library
  | .mode => choice [.always, .never, .implicit] ChainMode.name
  | .depth => natural 2
  | .style => choice [.asNeeded, .array, .string] PathStyle.name
  | .rules => Given.rulesOf

/-- The group of an option, if it is in one. -/
def group? : ConfigOption → Option String
  | .pragma | .version => some "settings"
  | .mode | .depth => some "chaining"
  | .style => some "path_style"
  | .rules => none

/-- The key of an option. -/
def key : ConfigOption → String
  | .pragma => "pragma"
  | .version => "version"
  | .mode => "mode"
  | .depth => "depth"
  | .style => "style"
  | .rules => "rules"

/-- What an object says under a key; anything else says nothing. -/
def inObject (key : String) : Option Json → Option Json
  | some (.object members) => Json.Members.get? key members
  | _ => none

/-- What the members of a configuration say on an option. -/
def get? (m : Json.Members) (o : ConfigOption) : Option Json :=
  match o.group? with
  | none => m.get? o.key
  | some group => inObject o.key (m.get? group)

theorem get?_of_group {m : Json.Members} {o : ConfigOption} {group : String}
    (h : o.group? = some group) : o.get? m = inObject o.key (m.get? group) := by
  rw [get?, h]

/-- The value of an option that something is said on, or its default. -/
def Resolved (o : ConfigOption) (said : Option Json) (x : o.Value) : Prop :=
  match said with
  | none => x = o.valueIn {}
  | some v => o.read v = .ok x

/-- A configuration is known from the values of its options. -/
theorem eq_of_valueIn {c d : Config} (h : ∀ o, valueIn c o = valueIn d o) : c = d := by
  obtain ⟨⟨pragma, library⟩, ⟨mode, depth, two_le⟩, pathStyle, rules⟩ := c
  obtain ⟨⟨pragma', library'⟩, ⟨mode', depth', two_le'⟩, pathStyle', rules'⟩ := d
  obtain rfl : pragma = pragma' := h .pragma
  obtain rfl : library = library' := h .version
  obtain rfl : mode = mode' := h .mode
  obtain rfl : depth = depth' := congrArg Subtype.val (h .depth)
  obtain rfl : pathStyle = pathStyle' := h .style
  obtain rfl : rules = rules' := h .rules
  rfl

/-- Defaults stand in for what was not given. -/
theorem valueIn_complete (g : Given) (o : ConfigOption) :
    o.valueIn g.complete = (o.givenIn g).getD (o.valueIn {}) := by
  cases o <;> rfl

/-- What is read for an option in a group, from what is read for the group. -/
theorem reads_inObject {α β : Type} {checkGroup : Json → Checked β} {check : Json → Checked α}
    {field : β → Option α} {key : String} {said : Option Json} {g : Option β}
    (hgroup : ∀ v x, checkGroup v = .ok x →
      ∃ members : Json.Members, v = .object members ∧ Reads check (members.get? key) (field x))
    (h : Reads checkGroup said g) : Reads check (inObject key said) (g.bind field) := by
  cases h with
  | none => exact .none
  | some hv =>
    obtain ⟨members, rfl, hmember⟩ := hgroup _ _ hv
    exact hmember

/-- What is read for each option from a configuration that is accepted. -/
theorem reads_givenIn {m : Json.Members} {g : Given} (h : Given.check (.object m) = .ok g)
    (o : ConfigOption) : Reads o.read (o.get? m) (o.givenIn g) := by
  obtain ⟨_, heq, hsettings, hchaining, hpath, hrules, -⟩ := Given.check_eq_ok_iff.1 h
  obtain rfl := Json.object.inj heq
  -- Each option but the last is a member of one of the objects.
  cases o with
  | pragma =>
    refine reads_inObject ?_ hsettings
    intro v x hv
    obtain ⟨members, hmembers, hpragma, -, -⟩ := Given.settingsOf_eq_ok_iff.1 hv
    exact ⟨members, hmembers, hpragma⟩
  | version =>
    refine reads_inObject ?_ hsettings
    intro v x hv
    obtain ⟨members, hmembers, -, hlibrary, -⟩ := Given.settingsOf_eq_ok_iff.1 hv
    exact ⟨members, hmembers, hlibrary⟩
  | mode =>
    refine reads_inObject ?_ hchaining
    intro v x hv
    obtain ⟨members, hmembers, hmode, -, -⟩ := Given.chainingOf_eq_ok_iff.1 hv
    exact ⟨members, hmembers, hmode⟩
  | depth =>
    refine reads_inObject ?_ hchaining
    intro v x hv
    obtain ⟨members, hmembers, -, hdepth, -⟩ := Given.chainingOf_eq_ok_iff.1 hv
    exact ⟨members, hmembers, hdepth⟩
  | style =>
    refine reads_inObject ?_ hpath
    intro v x hv
    obtain ⟨members, hmembers, hstyle, -⟩ := Given.pathStyleOf_eq_ok_iff.1 hv
    exact ⟨members, hmembers, hstyle⟩
  | rules => exact hrules

end ConfigOption

/-! ## Configurations of the right shape -/

/-- The groups of options, with the keys in them. -/
def optionGroups : List (String × List String) :=
  [("settings", ["pragma", "version"]), ("chaining", ["mode", "depth"]), ("path_style", ["style"])]

/-- Members of the shape of a configuration: known keys, each once, with objects of this kind as
    groups and anything but objects as values of options. -/
structure Shaped (m : Json.Members) : Prop where
  nodup : m.keys.Nodup
  known : ∀ key ∈ m.keys, key ∈ ["settings", "chaining", "path_style", "rules"].map Text.ofString
  groups : ∀ group ∈ optionGroups, ∀ v, m.get? group.1 = some v →
    ∃ members : Json.Members, v = .object members ∧ members.keys.Nodup ∧
      ∀ key ∈ members.keys, key ∈ group.2.map Text.ofString
  values : ∀ (o : ConfigOption) (members : Json.Members), o.get? m ≠ some (.object members)

namespace Shaped

open ConfigOption

variable {m : Json.Members}

/-- A group that is there says what its members say. -/
theorem reads_group {β : Type} {checkGroup : Json → Checked β} {group : String} (h : Shaped m)
    (keys : List String) (hgroup : (group, keys) ∈ optionGroups) (x : β)
    (hcheck : ∀ members : Json.Members, m.get? group = some (.object members) →
      (∀ key ∈ members.keys, key ∈ keys.map Text.ofString) → checkGroup (.object members) = .ok x) :
    Reads checkGroup (m.get? group) ((m.get? group).map fun _ => x) := by
  cases hv : m.get? group with
  | none => exact .none
  | some v =>
    obtain ⟨members, rfl, -, hknown⟩ := h.groups _ hgroup v hv
    exact .some (hcheck members hv hknown)

/-- A configuration of the right shape is accepted when a value can be read for each option that
    something is said on. -/
theorem exists_given (h : Shaped m) (x : ∀ o : ConfigOption, Option o.Value)
    (hx : ∀ o, Reads o.read (o.get? m) (x o)) :
    ∃ g, Given.check (.object m) = .ok g ∧ ∀ o, o.givenIn g = x o := by
  -- A group is given when the members have it, whether or not it says something on an option.
  let settings : GivenSettings := ⟨x .pragma, x .version⟩
  let chaining : GivenChaining := ⟨x .mode, x .depth⟩
  let pathStyle : GivenPathStyle := ⟨x .style⟩
  let g : Given :=
    { settings := (m.get? "settings").map fun _ => settings
      chaining := (m.get? "chaining").map fun _ => chaining
      pathStyle := (m.get? "path_style").map fun _ => pathStyle
      rules := x .rules }
  refine ⟨g, Given.check_eq_ok_iff.2 ⟨m, rfl, ?_, ?_, ?_, hx .rules, h.known⟩, ?_⟩
  · refine h.reads_group ["pragma", "version"] (by decide) settings ?_
    intro members hmembers hknown
    have hpragma := hx .pragma
    have hversion := hx .version
    simp only [ConfigOption.get?, group?, hmembers, inObject] at hpragma hversion
    exact Given.settingsOf_eq_ok_iff.2 ⟨members, rfl, hpragma, hversion, hknown⟩
  · refine h.reads_group ["mode", "depth"] (by decide) chaining ?_
    intro members hmembers hknown
    have hmode := hx .mode
    have hdepth := hx .depth
    simp only [ConfigOption.get?, group?, hmembers, inObject] at hmode hdepth
    exact Given.chainingOf_eq_ok_iff.2 ⟨members, rfl, hmode, hdepth, hknown⟩
  · refine h.reads_group ["style"] (by decide) pathStyle ?_
    intro members hmembers hknown
    have hstyle := hx .style
    simp only [ConfigOption.get?, group?, hmembers, inObject] at hstyle
    exact Given.pathStyleOf_eq_ok_iff.2 ⟨members, rfl, hstyle, hknown⟩
  · -- Where a group is missing nothing is said on its options.
    have hfield : ∀ (o : ConfigOption) (group : String) {β : Type} (y : β) (field : β → Option o.Value),
        o.group? = some group → field y = x o →
          ((m.get? group).map fun _ => y).bind field = x o := by
      intro o group β y field hgroup hy
      cases hm : m.get? group with
      | none =>
        have ho := hx o
        rw [get?_of_group hgroup, hm] at ho
        exact ho.of_none.symm
      | some v => exact hy
    intro o
    cases o with
    | pragma => exact hfield .pragma _ settings (·.pragma) rfl rfl
    | version => exact hfield .version _ settings (·.library) rfl rfl
    | mode => exact hfield .mode _ chaining (·.mode) rfl rfl
    | depth => exact hfield .depth _ chaining (·.depth) rfl rfl
    | style => exact hfield .style _ pathStyle (·.style) rfl rfl
    | rules => rfl

/-- A configuration of the right shape has the value of each option read from what is said on it,
    or the default. -/
theorem check_eq_ok_iff (h : Shaped m) {c : Config} :
    Config.check (.object m) = .ok c ↔ ∀ o : ConfigOption, o.Resolved (o.get? m) (o.valueIn c) := by
  constructor
  · intro hc o
    obtain ⟨g, hg, rfl⟩ := map_eq_ok hc
    have ho := reads_givenIn hg o
    rw [valueIn_complete]
    cases hsaid : o.get? m with
    | none =>
      rw [hsaid] at ho
      rw [ho.of_none]
      rfl
    | some v =>
      rw [hsaid] at ho
      cases hx : o.givenIn g with
      | none =>
        rw [hx] at ho
        exact nomatch ho
      | some x =>
        rw [hx] at ho
        obtain ⟨_, heq, hread⟩ := ho.of_some
        obtain rfl := Option.some.inj heq
        exact hread
  · intro hc
    -- What is said on an option is read as its value in the configuration.
    have hreads : ∀ o : ConfigOption, Reads o.read (o.get? m) ((o.get? m).map fun _ => o.valueIn c) := by
      intro o
      have ho := hc o
      cases hsaid : o.get? m with
      | none => exact .none
      | some v =>
        rw [hsaid] at ho
        exact .some ho
    obtain ⟨g, hg, hgiven⟩ := h.exists_given _ hreads
    have hcomplete : g.complete = c := by
      apply eq_of_valueIn
      intro o
      have ho := hc o
      rw [valueIn_complete, hgiven]
      cases hsaid : o.get? m with
      | none =>
        rw [hsaid] at ho
        exact ho.symm
      | some v => rfl
    rw [Config.check, hg, ← hcomplete]
    rfl

end Shaped

end LodashStyle
