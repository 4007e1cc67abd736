import LodashStyle.Proofs.PathReading
import LodashStyle.Proofs.StringQuoting
import LodashStyle.Rule.PathStyle
import Mathlib.Data.List.Forall2

/-!
# What a string offered for an array means

An array of literals denotes one key for each of its slots, and a slot may be left empty:
`['a', , 'b']` has three.  The string that the path rule offers in its place is written from
the elements alone, without escapes.  It denotes the same keys exactly when no slot is empty
and no key is misread.

## Key results

- `judge_replacement`: a replacement for an array of literals is its elements as a string
- `string_fix_keeps_keys_iff`: when the string denotes the keys of the array
-/

namespace LodashStyle.PathStyle

open JavaScript PropertyPath

/-! ## The keys of an array -/

/-- The slots of an array: its elements and the places of missing ones. -/
def slots (n : Node) : List Node := n.children.filter (·.kind != .comment)

/-- What key a slot stands for: a string for its value, a number for its text as a key, other
    literals for themselves, and an empty slot for `hole`. -/
inductive SlotKey (hole : Text) : Node → Text → Prop where
  | string {n : Node} {key : Text} (hkind : n.kind = .string) (hvalue : stringValue n.text = .ok key) :
    SlotKey hole n key
  | number {n : Node} {key : Text} (hkind : n.kind = .number) (hvalue : numericKey? n.text = some key) :
    SlotKey hole n key
  | verbatim {n : Node} (hkind : n.kind ∈ [Kind.trueWord, .falseWord, .nullWord, .regex]) :
    SlotKey hole n n.text
  | elided {n : Node} (hkind : n.kind = .elision) : SlotKey hole n hole

/-- The keys that an array of literals denotes, one for each slot and in order. -/
def Denotes (hole : Text) (n : Node) (keys : List Text) : Prop :=
  List.Forall₂ (SlotKey hole) (slots n) keys

/-- The elements of an array are the slots that are not empty. -/
theorem parts_eq_filter_slots (n : Node) : n.parts = (slots n).filter (·.kind != .elision) := by
  rw [Node.parts, slots, List.filter_filter]
  congr 1
  funext c
  unfold Node.isPart
  cases c.kind <;> rfl

/-- The kinds of literals. -/
theorem mem_of_isLiteral {n : Node} (h : n.isLiteral = true) :
    n.kind ∈ [Kind.string, .number, .trueWord, .falseWord, .nullWord, .regex] := by
  unfold Node.isLiteral Kind.isLiteral at h
  split at h <;> simp_all

/-- A literal has the key that it is given as a slot. -/
theorem slotKey_of_literalKey {hole key : Text} {n : Node} (hliteral : n.isLiteral = true)
    (h : literalKey n = .ok (some key)) : SlotKey hole n key := by
  unfold literalKey at h
  split at h
  · rename_i hkind
    cases hvalue : stringValue n.text with
    | error fault => rw [hvalue] at h; cases h
    | ok value =>
      rw [hvalue] at h
      cases h
      exact .string hkind hvalue
  · rename_i hkind
    exact .number hkind (Except.ok.inj h)
  · rename_i hstring hnumber
    -- Literals that are neither strings nor numbers are taken as they are written.
    cases h
    have hmem := mem_of_isLiteral hliteral
    rw [List.mem_cons, List.mem_cons] at hmem
    exact .verbatim ((hmem.resolve_left hstring).resolve_left hnumber)

/-- A slot stands for one key only. -/
theorem SlotKey.unique {hole a b : Text} {n : Node} (ha : SlotKey hole n a) (hb : SlotKey hole n b) :
    a = b := by
  cases ha <;> cases hb <;> simp_all

/-- An array denotes one list of keys only. -/
theorem Denotes.unique {hole : Text} {n : Node} {as bs : List Text} (ha : Denotes hole n as)
    (hb : Denotes hole n bs) : as = bs := by
  unfold Denotes at ha hb
  generalize slots n = ns at ha hb
  induction ha generalizing bs with
  | nil => cases hb; rfl
  | cons hkey _ ih =>
    cases hb with
    | cons hkey' hrest => rw [hkey.unique hkey', ih hrest]

/-- The elements that all have keys, with these. -/
private theorem forall₂_of_mapM {f : Node → Except EscapeFault (Option Text)} {ns : List Node}
    {found : List (Option Text)} {keys : List Text} (hfound : ns.mapM f = .ok found)
    (hkeys : found.mapM id = some keys) :
    List.Forall₂ (fun n key => f n = .ok (some key)) ns keys := by
  induction ns generalizing found keys with
  | nil =>
    cases hfound
    cases hkeys
    exact .nil
  | cons n ns ih =>
    rw [List.mapM_cons] at hfound
    cases hn : f n with
    | error fault => rw [hn] at hfound; cases hfound
    | ok first =>
      cases hns : ns.mapM f with
      | error fault => rw [hn, hns] at hfound; cases hfound
      | ok later =>
        rw [hn, hns] at hfound
        cases hfound
        -- Both runs went through, so that the first node has a key and the rest have theirs.
        rw [List.mapM_cons] at hkeys
        cases first with
        | none => cases hkeys
        | some key =>
          cases hlater : later.mapM id with
          | none => rw [hlater] at hkeys; cases hkeys
          | some rest =>
            rw [hlater] at hkeys
            cases hkeys
            exact .cons hn (ih hns hlater)

/-- An array of literals is offered a string only where each element has a key, and then the
    string is these keys as a literal. -/
theorem literalPath_eq_some {n : Node} {text : Text} (h : literalPath n = .ok (some text)) :
    ∃ keys, List.Forall₂ (fun c key => literalKey c = .ok (some key)) n.parts keys ∧
      text = stringLiteral keys := by
  unfold literalPath at h
  cases hfound : n.parts.mapM literalKey with
  | error fault => rw [hfound] at h; cases h
  | ok found =>
    rw [hfound] at h
    obtain ⟨keys, hkeys, rfl⟩ := Option.map_eq_some_iff.1 (Except.ok.inj h)
    exact ⟨keys, forall₂_of_mapM hfound hkeys, rfl⟩

/-- A replacement for an array, in style `asNeeded` or for an array of literals in style
    `string`, is its elements as a string. -/
theorem judge_replacement {style : PathStyle} {argument n : Node} {verdict : Verdict} {text : Text}
    (hnode : argument.unwrap = some n) (harray : n.kind = .array)
    (hstyle : style = .asNeeded ∨ style = .string ∧ isLiteralArray n = true)
    (hjudge : judge style argument = .ok verdict) (htext : verdict.replacement = some text) :
    isLiteralArray n = true ∧ literalPath n = .ok (some text) := by
  have hshape : shapeOf n = .ok (if isLiteralArray n then .literalArray else .array) := by
    simp [shapeOf, harray]
  simp only [judge, hnode, hshape] at hjudge
  cases hliteral : isLiteralArray n with
  | false =>
    -- only style `asNeeded` is left, which leaves such an array alone
    rcases hstyle with rfl | ⟨rfl, htrue⟩
    · rw [hliteral] at hjudge
      cases hjudge
      cases htext
    · rw [htrue] at hliteral
      cases hliteral
  | true =>
    rw [hliteral] at hjudge
    -- In both styles the text that is offered is the path of the literals.
    refine ⟨rfl, ?_⟩
    cases hpath : literalPath n with
    | error fault =>
      rcases hstyle with rfl | ⟨rfl, -⟩
      · change (literalPath n >>= _) = _ at hjudge
        rw [hpath] at hjudge
        cases hjudge
      · change judgeString n .literalArray = _ at hjudge
        simp only [judgeString, stringStyle, hliteral, if_true, hpath] at hjudge
        split at hjudge <;> cases hjudge
        cases htext
    | ok found =>
      rcases hstyle with rfl | ⟨rfl, -⟩
      · change (literalPath n >>= _) = _ at hjudge
        rw [hpath] at hjudge
        cases hjudge
        rw [← htext]
        rfl
      · change judgeString n .literalArray = _ at hjudge
        simp only [judgeString, stringStyle, hliteral, if_true, hpath] at hjudge
        split at hjudge <;> cases hjudge
        · rw [← htext]
          rfl
        · cases htext

/-! ## The exact condition -/

/-- The key of each element, and `hole` for each empty slot, are the keys of the array. -/
private theorem exists_slotKeys (hole : Text) {ns : List Node} {keys : List Text}
    (hliteral : ∀ n ∈ ns, n.kind ≠ .elision → n.isLiteral = true)
    (hkeys : List.Forall₂ (fun c key => literalKey c = .ok (some key))
      (ns.filter (·.kind != .elision)) keys) :
    ∃ all, List.Forall₂ (SlotKey hole) ns all ∧ keys.Sublist all ∧
      ((∀ n ∈ ns, n.kind ≠ .elision) → all = keys) ∧
      ((∃ n ∈ ns, n.kind = .elision) → keys.length < all.length) := by
  induction ns generalizing keys with
  | nil =>
    cases hkeys
    exact ⟨[], .nil, .refl _, fun _ => rfl, by simp⟩
  | cons n ns ih =>
    have hrest : ∀ c ∈ ns, c.kind ≠ .elision → c.isLiteral = true :=
      fun c hc => hliteral c (List.mem_cons_of_mem _ hc)
    by_cases hn : n.kind = .elision
    · -- An empty slot adds `hole` to the keys and nothing to those written.
      rw [List.filter_cons_of_neg (by simp [hn])] at hkeys
      obtain ⟨all, hall, hsub, -, hlt⟩ := ih hrest hkeys
      refine ⟨hole :: all, .cons (.elided hn) hall, hsub.cons _, ?_, ?_⟩
      · intro hnone
        exact absurd hn (hnone n List.mem_cons_self)
      · intro _
        have := hsub.length_le
        simp only [List.length_cons]
        omega
    · rw [List.filter_cons_of_pos (by simp [hn])] at hkeys
      -- Any other slot adds the same key to both.
      cases hkeys with
      | cons hkey hkeys =>
        obtain ⟨all, hall, hsub, heq, hlt⟩ := ih hrest hkeys
        refine ⟨_, .cons (slotKey_of_literalKey (hliteral n List.mem_cons_self hn) hkey) hall,
          hsub.cons_cons _, ?_, ?_⟩
        · intro hnone
          rw [heq fun c hc => hnone c (List.mem_cons_of_mem _ hc)]
        · rintro ⟨c, hc, hempty⟩
          rcases List.mem_cons.1 hc with rfl | hc
          · exact absurd hempty hn
          · have := hlt ⟨c, hc, hempty⟩
            simp only [List.length_cons]
            omega

/-- Let the path rule offer a string for an array, in style `asNeeded` or for an array of
    literals in style `string`.  Then every slot of the array has a key, and the string denotes
    these keys, slot by slot, exactly when no slot is empty and no key is misread in the
    written path. -/
theorem string_fix_keeps_keys_iff {style : PathStyle} {argument n : Node} {verdict : Verdict}
    {text : Text} (hole : Text) (hnode : argument.unwrap = some n) (harray : n.kind = .array)
    (hstyle : style = .asNeeded ∨ style = .string ∧ isLiteralArray n = true)
    (hjudge : judge style argument = .ok verdict) (htext : verdict.replacement = some text) :
    (∃ keys, Denotes hole n keys) ∧ ∀ keys, Denotes hole n keys →
      ((∃ path, stringValue text = .ok path ∧ split path = keys) ↔
        (∀ slot ∈ slots n, slot.kind ≠ .elision) ∧ Readable keys) := by
  obtain ⟨hliteral, hpath⟩ := judge_replacement hnode harray hstyle hjudge htext
  obtain ⟨written, hwritten, rfl⟩ := literalPath_eq_some hpath
  rw [parts_eq_filter_slots] at hwritten
  simp only [isLiteralArray, Bool.and_eq_true, List.all_eq_true, parts_eq_filter_slots] at hliteral
  obtain ⟨all, hall, hsub, heq, hlt⟩ := exists_slotKeys hole
    (fun c hc hne => hliteral.2 c (List.mem_filter.2 ⟨hc, by simpa using hne⟩)) hwritten
  refine ⟨⟨all, hall⟩, fun keys hkeys => ?_⟩
  -- The slots leave no choice of keys.
  obtain rfl : keys = all := Denotes.unique hkeys hall
  have hvalue : (∃ path, stringValue (stringLiteral written) = .ok path ∧ split path = keys) ↔
      split (render written) = keys := by
    simp [stringValue_stringLiteral]
  rw [hvalue]
  by_cases hfull : ∀ slot ∈ slots n, slot.kind ≠ .elision
  · rw [heq hfull, split_render_iff]
    exact ⟨fun h => ⟨hfull, h⟩, fun h => h.2⟩
  · -- With an empty slot fewer keys are written than the slots stand for.
    have hempty : ∃ slot ∈ slots n, slot.kind = .elision := by simpa using hfull
    constructor
    · intro h
      exact absurd h (split_render_ne_of_sublist hsub (hlt hempty))
    · intro h
      exact absurd h.1 hfull

/-- The string `'a.b'` offered for `['a', , 'b']` does not denote its three keys. -/
theorem string_fix_loses_empty_slot :
    let leaf (kind : Kind) (text : Text) : Node := .mk ⟨kind, none, ⟨0, 0, 0, 0, 0, 0⟩, text⟩ []
    let n : Node := .mk ⟨.array, none, ⟨0, 0, 0, 0, 0, 0⟩, "['a', , 'b']"⟩
      [leaf .string "'a'", leaf .elision ",", leaf .string "'b'"]
    judge .asNeeded n = .ok (.violation n .stringForSimple (some "'a.b'")) ∧
      ∀ keys, Denotes "undefined" n keys → ¬∃ path, stringValue "'a.b'" = .ok path ∧ split path = keys := by
  intro leaf n
  have hjudge : judge .asNeeded n = .ok (.violation n .stringForSimple (some "'a.b'")) := by decide
  refine ⟨hjudge, fun keys hkeys => ?_⟩
  rw [(string_fix_keeps_keys_iff "undefined" (n := n) rfl rfl (.inl rfl) hjudge rfl).2 keys hkeys]
  intro h
  exact h.1 (leaf .elision ",") (List.mem_filter.2 ⟨.tail _ (.head _), rfl⟩) rfl

end LodashStyle.PathStyle
