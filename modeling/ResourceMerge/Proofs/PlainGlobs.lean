import Mathlib.Data.List.DropRight
import Mathlib.Data.List.TakeDrop
import ResourceMerge.Glob.Shape
import ResourceMerge.Proofs.GlobMatching

/-! Globs that a comparison of texts settles. The comparison depends on the shape of the glob: with
    the last component of a name, with the extension of that component, with the name or with the
    end of it. Whatever the shape, it accepts exactly the names that the tokens match, so the choice
    of a comparison is not seen from outside but in one case: a name that ends in two dots has no
    last component, and a glob that asks for one does not accept it.

    A comparison of bytes may stand for one of characters because the bytes of the slash and of the
    dot are in no other character. -/

namespace ResourceMerge.Glob

variable {name text component lead : List UInt8} {tokens : List Token} {cs : List Char}

/-! ### Characters and their bytes -/

/-- A byte of the first half is the whole of its character. -/
theorem eq_of_mem_utf8EncodeChar {b : UInt8} {c : Char} (hb : b < 0x80)
    (h : b ∈ String.utf8EncodeChar c) : c = Char.ofNat b.toNat := by
  rw [UInt8.lt_iff_toNat_lt] at hb
  have hb : b.toNat < 128 := hb
  rw [String.utf8EncodeChar] at h
  split at h
  · rename_i hc
    rw [List.mem_singleton.1 h, UInt8.toNat_ofNat', Nat.mod_eq_of_lt (by omega)]
    exact (Char.ofNat_toNat c).symm
  -- all bytes of the longer forms are of the second half
  · exfalso
    split at h
    · simp only [List.mem_cons, List.not_mem_nil, or_false] at h
      rcases h with rfl | rfl <;> rw [UInt8.toNat_ofNat'] at hb <;> omega
    · split at h
      · simp only [List.mem_cons, List.not_mem_nil, or_false] at h
        rcases h with rfl | rfl | rfl <;> rw [UInt8.toNat_ofNat'] at hb <;> omega
      · simp only [List.mem_cons, List.not_mem_nil, or_false] at h
        rcases h with rfl | rfl | rfl | rfl <;> rw [UInt8.toNat_ofNat'] at hb <;> omega

/-- A separator is among the bytes of a text if it is among its characters. -/
theorem mem_of_mem_bytes {b : UInt8} (hb : b < 0x80) (h : b ∈ bytes cs) :
    Char.ofNat b.toNat ∈ cs := by
  obtain ⟨c, hmem, hc⟩ := List.mem_flatMap.1 h
  rwa [← eq_of_mem_utf8EncodeChar hb hc]

/-! ### The end of a list behind its last separator -/

section

variable {α : Type} [DecidableEq α] {s : α} {xs ys : List α}

theorem rtakeWhile_ne (h : s ∉ ys) : (xs ++ s :: ys).rtakeWhile (· != s) = ys := by
  have hall : ∀ y ∈ ys.reverse, (y != s) = true := fun y hy =>
    bne_iff_ne.2 (ne_of_mem_of_not_mem (List.mem_reverse.1 hy) h)
  rw [List.rtakeWhile, List.reverse_append, List.reverse_cons, List.append_assoc,
    List.takeWhile_append_of_pos hall]
  simp

theorem rdropWhile_ne (h : s ∉ ys) : (xs ++ s :: ys).rdropWhile (· != s) = xs ++ [s] := by
  have hsplit := List.rdropWhile_append_rtakeWhile (p := (· != s)) (l := xs ++ s :: ys)
  rw [rtakeWhile_ne h] at hsplit
  exact List.append_cancel_right (hsplit.trans (List.append_cons xs s ys))

/-- Whatever stands before the end of a list ends in the separator. -/
theorem rdropWhile_ne_cases (s : α) (xs : List α) :
    xs.rdropWhile (· != s) = [] ∨ ∃ front, xs.rdropWhile (· != s) = front ++ [s] := by
  refine or_iff_not_imp_left.2 fun h => ⟨(xs.rdropWhile (· != s)).dropLast, ?_⟩
  have hlast := List.rdropWhile_last_not (· != s) xs h
  rw [bne_iff_ne, not_not] at hlast
  conv_lhs => rw [← List.dropLast_append_getLast h, hlast]

end

/-! ### Components -/

theorem slash_notMem_lastComponent (name : List UInt8) : slash ∉ lastComponent name :=
  fun h => bne_iff_ne.1 (List.mem_rtakeWhile_imp (p := (· != slash)) h) rfl

/-- A name ends in a component exactly if only leading components stand before it. -/
theorem lastComponent_eq_iff (h : slash ∉ text) : lastComponent name = text ↔
    ∃ lead, Token.leadingComponents.Matches lead ∧ name = lead ++ text := by
  simp only [matches_leadingComponents]
  constructor
  · rintro rfl
    exact ⟨_, rdropWhile_ne_cases slash name, List.rdropWhile_append_rtakeWhile.symm⟩
  · rintro ⟨_, rfl | ⟨front, rfl⟩, rfl⟩
    · exact List.rtakeWhile_eq_self_iff.2 fun b hb => bne_iff_ne.2 (ne_of_mem_of_not_mem hb h)
    · rw [← List.append_cons]
      exact rtakeWhile_ne h

theorem extensionOf_eq (component : List UInt8) : extensionOf component =
    if component.rdropWhile (· != dot) = [] then none
    else some (component.rtakeWhile (· != dot)) := by
  rw [extensionOf, List.span_eq_takeWhile_dropWhile, List.rdropWhile, List.rtakeWhile]
  cases component.reverse.dropWhile (· != dot) <;> simp

/-- A component has an extension exactly if that stands behind a dot. -/
theorem extensionOf_eq_some_iff (h : dot ∉ text) :
    extensionOf component = some text ↔ ∃ front, component = front ++ dot :: text := by
  rw [extensionOf_eq]
  constructor
  · intro htext
    have hsplit := List.rdropWhile_append_rtakeWhile (p := (· != dot)) (l := component)
    split at htext
    · cases htext
    · rename_i hdot
      obtain ⟨front, hfront⟩ := (rdropWhile_ne_cases dot component).resolve_left hdot
      rw [Option.some.inj htext, hfront, ← List.append_cons] at hsplit
      exact ⟨front, hsplit.symm⟩
  · rintro ⟨front, rfl⟩
    rw [rdropWhile_ne h, rtakeWhile_ne h]
    simp

/-! ### Sequences of characters -/

theorem eq_map_literal : ∀ {tokens : List Token} {cs : List Char}, plain? tokens = some cs →
    tokens = cs.map Token.literal
  | [], cs, h => by
    cases h
    rfl
  | token :: tokens, cs, h => by
    rw [plain?, List.mapM_cons] at h
    obtain ⟨c, hc, h⟩ := Option.bind_eq_some_iff.1 h
    obtain ⟨rest, hrest, h⟩ := Option.bind_eq_some_iff.1 h
    cases h
    rw [List.map_cons, ← eq_map_literal hrest]
    cases token with
    | literal _ =>
      cases hc
      rfl
    | _ => cases hc

theorem matches_plain : Matches (cs.map Token.literal) text ↔ text = bytes cs := by
  induction cs generalizing text with
  | nil => exact matches_nil
  | cons c cs ih => simp [matches_cons, matches_literal, ih, bytes]

theorem extension?_eq_some {tokens : List Token} (h : extension? tokens = some cs) :
    tokens = .anyBytes :: .literal '.' :: cs.map Token.literal ∧ '.' ∉ cs ∧ '/' ∉ cs := by
  unfold extension? at h
  split at h
  · obtain ⟨hplain, hcs⟩ := Option.filter_eq_some_iff.1 h
    rw [← eq_map_literal hplain]
    simpa using hcs
  · cases h

/-- Any bytes and an extension match the components with that extension. -/
theorem matches_extension (h : slash ∉ bytes cs) :
    Matches (.anyBytes :: .literal '.' :: cs.map Token.literal) text ↔
      slash ∉ text ∧ ∃ front, text = front ++ dot :: bytes cs := by
  have hdot : String.utf8EncodeChar '.' = [dot] := rfl
  simp only [matches_cons, matches_anyBytes, matches_literal, matches_plain]
  constructor
  · rintro ⟨front, hfront, _, ⟨_, rfl, _, rfl, rfl⟩, rfl⟩
    rw [hdot, List.singleton_append]
    refine ⟨?_, front, rfl⟩
    rw [List.mem_append, List.mem_cons, not_or, not_or]
    exact ⟨hfront, by decide, h⟩
  · rintro ⟨hslash, front, rfl⟩
    exact ⟨front, fun hmem => hslash (List.mem_append_left _ hmem), _, ⟨_, rfl, _, rfl, rfl⟩, rfl⟩

/-! ### Shapes -/

/-- Does a glob of the shape ask for the last component or for its extension? -/
def asksForLast : Shape → Bool
  | .lastComponent _ | .extension _ | .withExtension => true
  | .wholeName _ | .components _ | .general => false

/-- The comparison that the shape stands for settles what the tokens match. -/
def Settles (tokens : List Token) : Shape → Prop
  | .lastComponent text => ∀ name, lastComponent name = text ↔ Matches tokens name
  | .extension text => ∀ name, extensionOf (lastComponent name) = some text ↔ Matches tokens name
  | .wholeName text => ∀ name, name = text ↔ Matches tokens name
  | .components text => ∀ name, name = text ∨ slash :: text <:+ name ↔ Matches tokens name
  | .withExtension | .general => True

/-- Characters behind leading components. -/
theorem matches_components : Matches (.leadingComponents :: cs.map Token.literal) name ↔
    ∃ lead, Token.leadingComponents.Matches lead ∧ name = lead ++ bytes cs := by
  simp [matches_cons, matches_plain]

theorem settles_components : Settles (.leadingComponents :: cs.map Token.literal)
    (.components (bytes cs)) := by
  intro name
  simp only [matches_components, matches_leadingComponents]
  constructor
  · rintro (rfl | ⟨front, rfl⟩)
    · exact ⟨[], .inl rfl, rfl⟩
    · exact ⟨_, .inr ⟨front, rfl⟩, List.append_cons front slash (bytes cs)⟩
  · rintro ⟨_, rfl | ⟨front, rfl⟩, rfl⟩
    · exact .inl rfl
    · exact .inr ⟨front, List.append_cons front slash (bytes cs)⟩

theorem settles_lastComponent (h : slash ∉ bytes cs) :
    Settles (.leadingComponents :: cs.map Token.literal) (.lastComponent (bytes cs)) :=
  fun _ => (lastComponent_eq_iff h).trans matches_components.symm

theorem settles_extension (hdot : dot ∉ bytes cs) (hslash : slash ∉ bytes cs) :
    Settles (.leadingComponents :: .anyBytes :: .literal '.' :: cs.map Token.literal)
      (.extension (bytes cs)) := by
  intro name
  rw [extensionOf_eq_some_iff hdot, matches_cons]
  simp only [matches_extension hslash]
  constructor
  · rintro ⟨front, hfront⟩
    have hnone := slash_notMem_lastComponent name
    obtain ⟨lead, hlead, hname⟩ := (lastComponent_eq_iff hnone).1 rfl
    exact ⟨lead, hlead, _, ⟨hnone, front, hfront⟩, hname⟩
  · rintro ⟨lead, hlead, component, ⟨hnone, front, hfront⟩, hname⟩
    exact ⟨front, ((lastComponent_eq_iff hnone).2 ⟨lead, hlead, hname⟩).trans hfront⟩

theorem shape_settles (tokens : List Token) : Settles tokens (shape tokens) := by
  have hother : ∀ tokens rest,
      Settles tokens (if endsInExtension rest then .withExtension else .general) := by
    intro tokens rest
    split
    · trivial
    · trivial
  unfold shape
  dsimp only
  split
  · rename_i rest
    rcases hplain : plain? rest with _ | _ | ⟨c, cs⟩
    · rcases hextension : extension? rest with _ | cs
      · exact hother _ _
      · obtain ⟨rfl, hdot, hslash⟩ := extension?_eq_some hextension
        exact settles_extension (fun h => hdot (mem_of_mem_bytes (by decide) h))
          fun h => hslash (mem_of_mem_bytes (by decide) h)
    · trivial
    · rw [eq_map_literal hplain]
      dsimp only
      split
      · exact settles_components
      · rename_i hslash
        rw [List.contains_iff_mem] at hslash
        exact settles_lastComponent fun h => hslash (mem_of_mem_bytes (by decide) h)
  · trivial
  · split
    · rename_i cs hplain
      rw [eq_map_literal hplain]
      exact fun name => matches_plain.symm
    · exact hother _ _

/-- A glob accepts the names that its tokens match; leading components alone accept every name. A
    glob that asks for the last component does not accept a name that has none because it ends in
    two dots. -/
theorem acceptsName_iff (tokens : List Token) (name : List UInt8) : acceptsName tokens name ↔
    (asksForLast (shape tokens) → endsAbove name = false) ∧
      (tokens = [.leadingComponents] ∨ Matches tokens name) := by
  by_cases hlone : tokens = [.leadingComponents]
  · subst hlone
    simp [acceptsName, shape, plain?, accepts, asksForLast]
  have hsettles := shape_settles tokens
  have haccepts := accepts_iff tokens name
  rw [or_iff_right hlone] at haccepts ⊢
  rw [acceptsName]
  cases hshape : shape tokens with
  | lastComponent text | extension text | wholeName text | components text =>
    rw [hshape] at hsettles
    rw [← hsettles name]
    simp [asksForLast]
  | withExtension | general => simp [asksForLast, haccepts]

/-- The tokens match two dots, but no glob finds a last component there. -/
example :
    let tokens : List Token := [.leadingComponents, .literal '.', .literal '.']
    Matches tokens [dot, dot] ∧ acceptsName tokens [dot, dot] = false :=
  ⟨.cons .noComponents (.cons (.literal '.') (.cons (.literal '.') .nil)), by decide⟩

end ResourceMerge.Glob
