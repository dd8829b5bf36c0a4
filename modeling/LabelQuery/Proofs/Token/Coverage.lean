import LabelQuery.Proofs.Text.Slice
import LabelQuery.Proofs.Token.Division

/-!
# Every character is in a token or blank

Dividing a text loses nothing of it. `Tiles` says what a list of tokens has to do for that, with no
word on how the tokens are found: read from the left, the text is blanks and the texts of the tokens
in their order, each token stands at the byte where its text begins, and no text holds a blank.

The scan tiles its text (`scan_tiles`). All the rest is about tilings: their tokens are parts of
the text (`Tiles.part_of_mem`), they follow one another without overlap (`Tiles.pairwise`), and a
character is covered by one of them exactly if it is not blank (`Tiles.covered_iff`).

**What it does not establish.** A tiling may cut a run of characters anywhere; that tokens are cut
where they should be is the law of `LabelQuery.Proofs.Token.Division`.
-/

namespace LabelQuery

open Text (isBlank byteLength IsSlice)

namespace Token

/-- Whether the byte is one of the bytes of the token. -/
def Covers (token : Token) (byte : Nat) : Prop :=
  token.offset ≤ byte ∧ byte < token.stop

/-- Whether the characters, the first of which stands at the given byte, are blanks and the texts of
the tokens in order, each token at its place. -/
inductive Tiles : Nat → List Char → List Token → Prop where
  | nil {offset : Nat} : Tiles offset [] []
  | blank {offset : Nat} {c : Char} {cs : List Char} {tokens : List Token} :
    isBlank c = true → Tiles (offset + c.utf8Size) cs tokens → Tiles offset (c :: cs) tokens
  | token {offset : Nat} {kind : Kind} {text cs : List Char} {tokens : List Token} :
    text ≠ [] → (∀ c ∈ text, isBlank c = false) → Tiles (offset + byteLength text) cs tokens →
    Tiles offset (text ++ cs) (⟨kind, String.ofList text, offset⟩ :: tokens)

/-- **The scan tiles its text.** By the cases of the scan: a blank is passed over, and a token takes
its first character and what it reaches over, none of which is blank. -/
theorem scan_tiles (offset : Nat) (cs : List Char) : Tiles offset cs (scan offset cs) := by
  induction offset, cs using scan.induct with
  | case1 offset =>
    rw [scan_nil]
    exact .nil
  | case2 offset c cs blank ih =>
    rw [scan_blank offset blank]
    exact .blank blank ih
  | case3 offset c cs solid text ih =>
    rw [Bool.not_eq_true] at solid
    have whole : c :: cs = text ++ cs.drop (reach c cs).length := by
      rw [List.cons_append, reach_append_drop]
    rw [scan_token offset solid]
    conv => arg 2; rw [whole]
    refine .token (List.cons_ne_nil _ _) ?_ ih
    intro d mem
    rcases List.mem_cons.mp mem with rfl | mem
    · exact solid
    · exact isBlank_of_mem_reach mem

namespace Tiles

/-- The text of a token in a tiling is not empty, and it stands in the tiled characters behind as
many bytes as the token says. -/
theorem part_of_mem {offset : Nat} {cs : List Char} {tokens : List Token} {token : Token}
    (tiles : Tiles offset cs tokens) (mem : token ∈ tokens) :
    token.text ≠ "" ∧ ∃ before after, cs = before ++ token.text.toList ++ after ∧
      token.offset = offset + byteLength before := by
  induction tiles with
  | nil => cases mem
  | @blank offset c cs tokens _ _ ih =>
    obtain ⟨nonempty, before, after, whole, place⟩ := ih mem
    refine ⟨nonempty, c :: before, after, ?_, ?_⟩
    · rw [whole]
      rfl
    · rw [place, Text.byteLength_cons, Nat.add_assoc]
  | @token offset kind text cs tokens nonempty _ _ ih =>
    rcases List.mem_cons.mp mem with rfl | mem
    · refine ⟨fun h => nonempty (String.ofList_eq_empty_iff.mp h), [], cs, ?_, rfl⟩
      rw [String.toList_ofList]
      rfl
    · obtain ⟨solid, before, after, whole, place⟩ := ih mem
      refine ⟨solid, text ++ before, after, ?_, ?_⟩
      · rw [whole]
        simp only [List.append_assoc]
      · rw [place, Text.byteLength_append, Nat.add_assoc]

/-- The tokens of a tiling follow one another: each begins behind the beginning of the one before,
and not before its end. -/
theorem pairwise {offset : Nat} {cs : List Char} {tokens : List Token}
    (tiles : Tiles offset cs tokens) :
    tokens.Pairwise fun first second =>
      first.offset < second.offset ∧ first.stop ≤ second.offset := by
  induction tiles with
  | nil => exact .nil
  | blank _ _ ih => exact ih
  | @token offset kind text cs tokens nonempty _ rest ih =>
    refine List.Pairwise.cons (fun second mem => ?_) ih
    obtain ⟨_, before, _, _, place⟩ := rest.part_of_mem mem
    have size := Text.byteLength_pos nonempty
    rw [stop_mk, place]
    exact ⟨by simp only; omega, by omega⟩

/-- **A tiling covers what is not blank, and nothing else.** The character is given by what stands
before it, so that its byte is known. -/
theorem covered_iff {offset : Nat} {cs : List Char} {tokens : List Token}
    (tiles : Tiles offset cs tokens) {before after : List Char} {c : Char}
    (whole : cs = before ++ c :: after) :
    isBlank c = false ↔ ∃ token ∈ tokens, token.Covers (offset + byteLength before) := by
  induction tiles generalizing before with
  | nil =>
    cases before <;> cases whole
  | @blank offset d cs tokens blank rest ih =>
    cases before with
    | nil =>
      obtain ⟨rfl, rfl⟩ := List.cons.inj whole
      refine ⟨fun solid => absurd (solid.symm.trans blank) Bool.false_ne_true, ?_⟩
      rintro ⟨token, mem, begun, -⟩
      obtain ⟨_, _, _, _, place⟩ := rest.part_of_mem mem
      have size := d.utf8Size_pos
      rw [Text.byteLength_nil] at begun
      omega
    | cons b before =>
      obtain ⟨rfl, tail⟩ := List.cons.inj whole
      rw [ih tail, Text.byteLength_cons, Nat.add_assoc]
  | @token offset kind text cs tokens nonempty solid rest ih =>
    have inside : ∀ extra, text = before ++ c :: extra → (isBlank c = false ↔
        ∃ token ∈ (⟨kind, String.ofList text, offset⟩ : Token) :: tokens,
          token.Covers (offset + byteLength before)) := by
      rintro extra rfl
      refine iff_of_true (solid c (by simp)) ⟨_, List.mem_cons_self, Nat.le_add_right _ _, ?_⟩
      have size := c.utf8Size_pos
      rw [stop_mk, Text.byteLength_append, Text.byteLength_cons]
      omega
    have behind : ∀ more, before = text ++ more → cs = more ++ c :: after → (isBlank c = false ↔
        ∃ token ∈ (⟨kind, String.ofList text, offset⟩ : Token) :: tokens,
          token.Covers (offset + byteLength before)) := by
      rintro more rfl whole
      rw [ih whole, Text.byteLength_append, ← Nat.add_assoc]
      constructor
      · rintro ⟨token, mem, covers⟩
        exact ⟨token, List.mem_cons_of_mem _ mem, covers⟩
      · rintro ⟨token, mem, begun, ends⟩
        rcases List.mem_cons.mp mem with rfl | mem
        · rw [stop_mk] at ends
          omega
        · exact ⟨token, mem, begun, ends⟩
    rcases List.append_eq_append_iff.mp whole with ⟨more, rfl, h⟩ | ⟨extra, rfl, h⟩
    · exact behind more rfl h
    · cases extra with
      | nil => exact behind [] (by simp) (by simpa using h.symm)
      | cons d extra =>
        obtain ⟨rfl, -⟩ := List.cons.inj h
        exact inside extra rfl

end Tiles

end Token

/-- The chunks of the characters are parts of them, each behind as many bytes as it says. It is the
counterpart of `Tiles.part_of_mem` for the coarser cut of a text. -/
theorem Chunk.part_of_mem {offset : Nat} {cs : List Char} {chunk : Chunk}
    (mem : chunk ∈ Chunk.ofChars offset cs) :
    ∃ before after, cs = before ++ chunk.chars ++ after ∧
      chunk.offset = offset + byteLength before := by
  induction offset, cs using Chunk.ofChars.induct with
  | case1 offset =>
    rw [Chunk.ofChars] at mem
    cases mem
  | case2 offset c cs blank ih =>
    rw [Chunk.ofChars, if_pos blank] at mem
    obtain ⟨before, after, whole, place⟩ := ih mem
    refine ⟨c :: before, after, ?_, ?_⟩
    · rw [whole]
      rfl
    · rw [place, Text.byteLength_cons, Nat.add_assoc]
  | case3 offset c cs solid run ih =>
    rw [Chunk.ofChars, if_neg solid] at mem
    have front : c :: cs = run ++ cs.dropWhile (!isBlank ·) := by
      rw [List.cons_append, List.takeWhile_append_dropWhile]
    rcases List.mem_cons.mp mem with rfl | mem
    · exact ⟨[], _, front, rfl⟩
    · obtain ⟨before, after, whole, place⟩ := ih mem
      refine ⟨run ++ before, after, ?_, ?_⟩
      · rw [front, whole]
        simp only [List.append_assoc]
      · rw [place, Text.byteLength_append, Nat.add_assoc]

/-- **The division never fails and never loses text.** Every chunk and every token is a slice of the
text, cut at boundaries of characters; tokens are not empty, begin one behind the other and do not
overlap; and the characters that no token covers are the blanks. -/
theorem tokenize_covers (text : String) : ∃ tokens, tokenize text = .ok tokens ∧
    (∀ chunk ∈ Chunk.ofChars 0 text.toList,
      IsSlice text (String.ofList chunk.chars) chunk.offset) ∧
    (∀ token ∈ tokens, token.text ≠ "" ∧ IsSlice text token.text token.offset) ∧
    (tokens.Pairwise fun first second =>
      first.offset < second.offset ∧ first.stop ≤ second.offset) ∧
    ∀ before c after, text.toList = before ++ c :: after →
      (isBlank c = false ↔ ∃ token ∈ tokens, token.Covers (byteLength before)) := by
  have tiles := Token.scan_tiles 0 text.toList
  refine ⟨Token.scan 0 text.toList, ?_, fun chunk mem => ?_, fun token mem => ?_,
    tiles.pairwise, fun before c after whole => ?_⟩
  · rw [tokenize, Lexing.ofText_eq_scan]
    rfl
  · obtain ⟨before, after, whole, place⟩ := Chunk.part_of_mem mem
    rw [place, Nat.zero_add]
    exact Text.isSlice_of_append whole
  · obtain ⟨nonempty, before, after, whole, place⟩ := tiles.part_of_mem mem
    have slice := Text.isSlice_of_append whole
    rw [String.ofList_toList] at slice
    rw [place, Nat.zero_add]
    exact ⟨nonempty, slice⟩
  · have covered := tiles.covered_iff whole
    rwa [Nat.zero_add] at covered

end LabelQuery
