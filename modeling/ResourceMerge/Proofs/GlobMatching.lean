import ResourceMerge.Glob.Pattern

/-! What a glob matches, told by texts. A token matches the texts of its kind, and a sequence of
    tokens matches what they match one behind the other. The matcher knows nothing of texts; it maps
    the positions of a name that it can be at before a token to those that it can be at behind it.
    Both say the same: a position is reached exactly if a text that is matched stands between one of
    the positions given and this one.

    Such a step over the name is told by the kind of texts that it passes. Steps in sequence pass
    one text behind the other, and steps side by side pass what either of them does, so the kind of
    every token comes from those of the two elementary steps. -/

namespace ResourceMerge.Glob

mutual

/-- The texts that a token matches. -/
inductive Token.Matches : Token → List UInt8 → Prop where
  | literal (c : Char) : Token.Matches (.literal c) (String.utf8EncodeChar c)
  | oneByte {b : UInt8} (h : b ≠ slash) : Token.Matches .oneByte [b]
  | anyBytes {text : List UInt8} (h : slash ∉ text) : Token.Matches .anyBytes text
  | noComponents : Token.Matches .leadingComponents []
  | leadingComponents (text : List UInt8) : Token.Matches .leadingComponents (text ++ [slash])
  | trailingComponents (text : List UInt8) : Token.Matches .trailingComponents (slash :: text)
  | oneSlash : Token.Matches .innerComponents [slash]
  | innerComponents (text : List UInt8) : Token.Matches .innerComponents (slash :: (text ++ [slash]))
  | byteClass {negated : Bool} {ranges : List (Char × Char)} {b : UInt8}
    (h : inClass negated ranges b) : Token.Matches (.byteClass negated ranges) [b]
  /-- a branch that may match a byte -/
  | oneOf {branches : List (List Token)} {branch : List Token} {text : List UInt8}
    (hmem : branch ∈ branches) (hvoid : isVoid branch = false) (h : Matches branch text) :
    Token.Matches (.oneOf branches) text
  /-- no branch may match a byte -/
  | void {branches : List (List Token)} (h : allVoid branches) : Token.Matches (.oneOf branches) []

/-- The texts that a sequence of tokens matches. -/
inductive Matches : List Token → List UInt8 → Prop where
  | nil : Matches [] []
  | cons {token : Token} {tokens : List Token} {front back : List UInt8}
    (h : token.Matches front) (h' : Matches tokens back) : Matches (token :: tokens) (front ++ back)

end

/-- A text stands between two positions of a name. -/
def Spans (name : List UInt8) (i : Nat) (text : List UInt8) (j : Nat) : Prop :=
  text <+: name.drop i ∧ j = i + text.length

/-- From the positions given, a step reaches those behind the texts of a kind. -/
def Steps (name : List UInt8) (step : Positions → Positions) (kind : List UInt8 → Prop) : Prop :=
  ∀ given j, (step given).testBit j ↔
    ∃ i text, given.testBit i ∧ Spans name i text j ∧ kind text

variable {name front back text : List UInt8} {i j : Nat} {b : UInt8} {p : UInt8 → Bool}
  {places : Positions} {step step' : Positions → Positions} {kind kind' : List UInt8 → Prop}

/-! ### Texts between positions -/

theorem spans_nil : Spans name i [] j ↔ j = i := by simp [Spans]

theorem spans_singleton : Spans name i [b] j ↔ name[i]? = some b ∧ j = i + 1 := by
  rw [Spans, List.length_singleton, List.prefix_iff_getElem?]
  simp

theorem spans_append :
    Spans name i (front ++ back) j ↔ ∃ k, Spans name i front k ∧ Spans name k back j := by
  constructor
  · rintro ⟨⟨rest, hrest⟩, hj⟩
    refine ⟨i + front.length, ⟨⟨back ++ rest, by rw [← hrest, List.append_assoc]⟩, rfl⟩, ?_, ?_⟩
    · rw [← List.drop_drop, ← hrest, List.append_assoc, List.drop_left]
      exact List.prefix_append back rest
    · rw [hj, List.length_append, Nat.add_assoc]
  · rintro ⟨_, ⟨⟨rest, hrest⟩, rfl⟩, hback, hj⟩
    rw [← List.drop_drop, ← hrest, List.drop_left] at hback
    refine ⟨?_, by rw [hj, List.length_append, Nat.add_assoc]⟩
    rw [← hrest]
    exact (List.prefix_append_right_inj front).2 hback

/-- Between the ends of a name stands the whole of it. -/
theorem spans_whole : Spans name 0 text name.length ↔ text = name := by
  rw [Spans, List.drop_zero, Nat.zero_add]
  constructor
  · rintro ⟨hstart, hlength⟩
    exact hstart.eq_of_length hlength.symm
  · rintro rfl
    exact ⟨List.prefix_rfl, rfl⟩

/-! ### Steps -/

namespace Steps

theorem congr (h : Steps name step kind) (hkind : ∀ text, kind text ↔ kind' text) :
    Steps name step kind' := by
  intro given j
  simp only [h given j, hkind]

theorem stay : Steps name id (· = []) := by
  intro given j
  constructor
  · exact fun h => ⟨j, [], h, spans_nil.2 rfl, rfl⟩
  · rintro ⟨i, _, h, hspans, rfl⟩
    rwa [spans_nil.1 hspans]

/-- One step behind the other. -/
theorem comp (h : Steps name step kind) (h' : Steps name step' kind') :
    Steps name (fun given => step' (step given))
      fun text => ∃ front, kind front ∧ ∃ back, kind' back ∧ text = front ++ back := by
  intro given j
  rw [h' (step given) j]
  constructor
  · rintro ⟨k, back, hk, hback, hkind'⟩
    obtain ⟨i, front, hi, hfront, hkind⟩ := (h given k).1 hk
    exact ⟨i, _, hi, spans_append.2 ⟨k, hfront, hback⟩, front, hkind, back, hkind', rfl⟩
  · rintro ⟨i, _, hi, hspans, front, hkind, back, hkind', rfl⟩
    obtain ⟨k, hfront, hback⟩ := spans_append.1 hspans
    exact ⟨k, back, (h given k).2 ⟨i, front, hi, hfront, hkind⟩, hback, hkind'⟩

/-- Two steps side by side. -/
theorem beside (h : Steps name step kind) (h' : Steps name step' kind') :
    Steps name (fun given => step given ||| step' given) fun text => kind text ∨ kind' text := by
  intro given j
  rw [Nat.testBit_or, Bool.or_eq_true, h given j, h' given j]
  simp only [and_or_left, exists_or]

/-- A step over one byte. -/
theorem overByte (h : ∀ i, places.testBit i = name[i]?.any p) :
    Steps name (across places) fun text => ∃ b, p b ∧ text = [b] := by
  intro given j
  constructor
  · intro hj
    cases j with
    | zero =>
      rw [testBit_across_zero] at hj
      cases hj
    | succ j =>
      rw [testBit_across, Bool.and_eq_true, h, Option.any_eq_true] at hj
      obtain ⟨hgiven, b, hb, hp⟩ := hj
      exact ⟨j, [b], hgiven, spans_singleton.2 ⟨hb, rfl⟩, b, hp, rfl⟩
  · rintro ⟨i, _, hi, hspans, b, hp, rfl⟩
    obtain ⟨hb, rfl⟩ := spans_singleton.1 hspans
    rw [testBit_across, hi, h, hb]
    exact hp

/-- A step over any number of bytes. It is followed from its end: before the last byte, the step
    has been made over one byte less. -/
theorem overBytes (h : ∀ i, places.testBit i = name[i]?.any p) :
    Steps name (along places) fun text => ∀ b ∈ text, p b := by
  intro given j
  induction j with
  | zero =>
    rw [testBit_along_zero]
    constructor
    · exact fun h => ⟨0, [], h, spans_nil.2 rfl, nofun⟩
    · rintro ⟨i, text, hi, ⟨-, hlength⟩, -⟩
      obtain rfl : i = 0 := by omega
      exact hi
  | succ j ih =>
    rw [testBit_along, Bool.or_eq_true, Bool.and_eq_true, ih, h, Option.any_eq_true]
    constructor
    · rintro (hgiven | ⟨⟨b, hb, hp⟩, i, text, hi, hspans, hall⟩)
      · exact ⟨j + 1, [], hgiven, spans_nil.2 rfl, nofun⟩
      · refine ⟨i, text ++ [b], hi, spans_append.2 ⟨j, hspans, spans_singleton.2 ⟨hb, rfl⟩⟩, ?_⟩
        exact List.forall_mem_append.2 ⟨hall, List.forall_mem_singleton.2 hp⟩
    · rintro ⟨i, text, hi, hspans, hall⟩
      rcases List.eq_nil_or_concat text with rfl | ⟨front, b, rfl⟩
      · rw [spans_nil.1 hspans]
        exact .inl hi
      · rw [List.concat_eq_append] at hspans hall
        obtain ⟨k, hfront, hlast⟩ := spans_append.1 hspans
        obtain ⟨hb, hk⟩ := spans_singleton.1 hlast
        obtain rfl : j = k := by omega
        rw [List.forall_mem_append, List.forall_mem_singleton] at hall
        exact .inr ⟨⟨b, hb, hall.2⟩, i, front, hi, hfront, hall.1⟩

/-- A step over given bytes, one after the other. -/
theorem overText (text : List UInt8) :
    Steps name
      (fun given => text.foldl (fun at_ b => across ((Subject.ofName name).before (· == b)) at_) given)
      (· = text) := by
  induction text with
  | nil => exact stay
  | cons b text ih =>
    refine ((overByte fun i => Subject.testBit_before name (· == b) i).comp ih).congr fun whole => ?_
    simp

theorem overSlash : Steps name (across (Subject.ofName name).slashes) (· = [slash]) :=
  (overByte Subject.testBit_slashes).congr fun _ => by simp

/-- A step over any bytes and a slash. -/
theorem pastSlash :
    Steps name (Glob.pastSlash (.ofName name)) fun text => ∃ front, text = front ++ [slash] :=
  ((overBytes Subject.testBit_all).comp overSlash).congr fun _ => by simp

end Steps

/-! ### Tokens -/

variable {token : Token} {tokens : List Token} {branches : List (List Token)}

theorem matches_literal {c : Char} :
    (Token.literal c).Matches text ↔ text = String.utf8EncodeChar c := by
  constructor
  · intro h
    cases h
    rfl
  · rintro rfl
    exact .literal c

theorem matches_oneByte : Token.oneByte.Matches text ↔ ∃ b, b ≠ slash ∧ text = [b] := by
  constructor
  · intro h
    cases h with
    | oneByte h => exact ⟨_, h, rfl⟩
  · rintro ⟨b, h, rfl⟩
    exact .oneByte h

theorem matches_anyBytes : Token.anyBytes.Matches text ↔ slash ∉ text := by
  constructor
  · intro h
    cases h with
    | anyBytes h => exact h
  · exact .anyBytes

theorem matches_leadingComponents :
    Token.leadingComponents.Matches text ↔ text = [] ∨ ∃ front, text = front ++ [slash] := by
  constructor
  · intro h
    cases h with
    | noComponents => exact .inl rfl
    | leadingComponents front => exact .inr ⟨front, rfl⟩
  · rintro (rfl | ⟨front, rfl⟩)
    · exact .noComponents
    · exact .leadingComponents front

theorem matches_trailingComponents :
    Token.trailingComponents.Matches text ↔ ∃ back, text = slash :: back := by
  constructor
  · intro h
    cases h with
    | trailingComponents back => exact ⟨back, rfl⟩
  · rintro ⟨back, rfl⟩
    exact .trailingComponents back

theorem matches_innerComponents : Token.innerComponents.Matches text ↔
    text = [slash] ∨ ∃ middle, text = slash :: (middle ++ [slash]) := by
  constructor
  · intro h
    cases h with
    | oneSlash => exact .inl rfl
    | innerComponents middle => exact .inr ⟨middle, rfl⟩
  · rintro (rfl | ⟨middle, rfl⟩)
    · exact .oneSlash
    · exact .innerComponents middle

theorem matches_byteClass {negated : Bool} {ranges : List (Char × Char)} :
    (Token.byteClass negated ranges).Matches text ↔ ∃ b, inClass negated ranges b ∧ text = [b] := by
  constructor
  · intro h
    cases h with
    | byteClass h => exact ⟨_, h, rfl⟩
  · rintro ⟨b, h, rfl⟩
    exact .byteClass h

theorem matches_oneOf : (Token.oneOf branches).Matches text ↔ allVoid branches ∧ text = [] ∨
    ∃ branch ∈ branches, isVoid branch = false ∧ Matches branch text := by
  constructor
  · intro h
    cases h with
    | void h => exact .inl ⟨h, rfl⟩
    | oneOf hmem hvoid h => exact .inr ⟨_, hmem, hvoid, h⟩
  · rintro (⟨h, rfl⟩ | ⟨branch, hmem, hvoid, h⟩)
    · exact .void h
    · exact .oneOf hmem hvoid h

theorem matches_nil : Matches [] text ↔ text = [] := by
  constructor
  · intro h
    cases h
    rfl
  · rintro rfl
    exact .nil

theorem matches_cons : Matches (token :: tokens) text ↔
    ∃ front, token.Matches front ∧ ∃ back, Matches tokens back ∧ text = front ++ back := by
  constructor
  · intro h
    cases h with
    | cons h h' => exact ⟨_, h, _, h', rfl⟩
  · rintro ⟨front, h, back, h', rfl⟩
    exact .cons h h'

theorem allVoid_iff : allVoid branches ↔ ∀ branch ∈ branches, isVoid branch := by
  induction branches with
  | nil => simp [allVoid]
  | cons branch rest ih => rw [allVoid, Bool.and_eq_true, ih, List.forall_mem_cons]

/-! ### What the matcher does -/

mutual

/-- A token is a step over the texts that it matches. -/
theorem Token.behind_steps (name : List UInt8) :
    ∀ token : Token, Steps name (token.behind (.ofName name)) token.Matches
  | .literal c => (Steps.overText _).congr fun _ => matches_literal.symm
  | .oneByte => (Steps.overByte Subject.testBit_others).congr fun _ => by
    simp [matches_oneByte]
  | .anyBytes => (Steps.overBytes Subject.testBit_others).congr fun text => by
    simp only [matches_anyBytes, bne_iff_ne]
    exact ⟨fun h hmem => h slash hmem rfl, fun h b hb heq => h (heq ▸ hb)⟩
  | .leadingComponents => (Steps.stay.beside Steps.pastSlash).congr fun _ =>
    matches_leadingComponents.symm
  | .trailingComponents => (Steps.overSlash.comp (Steps.overBytes Subject.testBit_all)).congr
    fun _ => by simp [matches_trailingComponents]
  | .innerComponents =>
    (Steps.overSlash.beside (Steps.overSlash.comp Steps.pastSlash)).congr fun text => by
    rw [matches_innerComponents]
    refine or_congr_right ⟨?_, ?_⟩
    · rintro ⟨_, rfl, _, ⟨middle, rfl⟩, rfl⟩
      exact ⟨middle, rfl⟩
    · rintro ⟨middle, rfl⟩
      exact ⟨_, rfl, _, ⟨middle, rfl⟩, rfl⟩
  | .byteClass negated ranges =>
    (Steps.overByte fun i => Subject.testBit_before name (inClass negated ranges) i).congr fun _ =>
      matches_byteClass.symm
  | .oneOf branches => by
    intro given j
    rw [Token.behind]
    by_cases hvoid : allVoid branches
    · rw [if_pos hvoid]
      have hnone : ∀ text, ¬∃ branch ∈ branches, isVoid branch = false ∧ Matches branch text := by
        rintro text ⟨branch, hmem, hbranch, -⟩
        simp [allVoid_iff.1 hvoid branch hmem] at hbranch
      refine (Steps.stay.congr fun text => ?_) given j
      rw [matches_oneOf, or_iff_left (hnone text), and_iff_right hvoid]
    · rw [if_neg hvoid, behindAny_steps name branches]
      simp [matches_oneOf, hvoid]

/-- A sequence of tokens is a step over the texts that it matches. -/
theorem behind_steps (name : List UInt8) :
    ∀ tokens : List Token, Steps name (behind (.ofName name) tokens) (Matches tokens)
  | [] => Steps.stay.congr fun text => matches_nil.symm
  | token :: tokens => by
    intro given j
    have hboth := ((token.behind_steps name).comp (behind_steps name tokens)) given j
    simp only [← matches_cons] at hboth
    rw [behind]
    split
    · rename_i hnone
      simp [hnone]
    · exact hboth

/-- The branches of a choice that are not void lead to what any of them leads to. -/
theorem behindAny_steps (name : List UInt8) : ∀ (branches : List (List Token)) (found given : Positions)
    (j : Nat), (behindAny (.ofName name) branches found given).testBit j ↔ found.testBit j ∨
      ∃ i text, given.testBit i ∧ Spans name i text j ∧
        ∃ branch ∈ branches, isVoid branch = false ∧ Matches branch text
  | [], found, given, j => by simp [behindAny]
  | branch :: branches, found, given, j => by
    rw [behindAny]
    split
    · rename_i hvoid
      rw [behindAny_steps name branches]
      simp [hvoid]
    · rename_i hvoid
      rw [behindAny_steps name branches, Nat.testBit_or, Bool.or_eq_true, behind_steps name branch]
      simp [hvoid, and_or_left, exists_or, or_assoc]

end

/-- A glob accepts the names that its tokens match as a whole; leading components alone accept every
    name. -/
theorem accepts_iff (tokens : List Token) (name : List UInt8) :
    accepts tokens name ↔ tokens = [.leadingComponents] ∨ Matches tokens name := by
  unfold accepts
  split
  · simp
  · rename_i hlone
    rw [or_iff_right hlone, behind_steps name tokens]
    simp [Nat.testBit_one_eq_true_iff_self_eq_zero, spans_whole]

end ResourceMerge.Glob
