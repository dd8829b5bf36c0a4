import LabelQuery.Proofs.Token.Division

/-!
# Tokenizing, seen from the text

`tokenize` goes by chunks, lookahead and a flag; what it comes to can be said of the text alone.

* It is the scan by longest match, and the words among its tokens are the **runs** of the text: the
  stretches of word characters with no further one on either side (`Token.IsRunOf`). A run is a
  keyword if all of it is one, and a value if not (`Token.Kind.ofRun`). So a value is never spelled
  as a keyword, and no keyword is found at the beginning of a longer run.
* It can be done in two parts wherever the text is cut between tokens, which is everywhere but
  inside a run and inside a sign of two characters (`tokenize_append_iff`).

That each word found is a run goes along the scan, since no word goes on behind its token
(`Token.not_wordsMeet_drop_reach`). That a run is found wherever one stands needs no induction: the
law of cuts allows a cut in front of it.
-/

namespace LabelQuery

open Text (byteLength)

namespace Token

/-- What a run of word characters is, by its text. -/
def Kind.ofRun (text : String) : Kind :=
  if text = "in" then .inKeyword else if text = "notin" then .notinKeyword else .value

/-- Whether the token stands in the characters, the first of which is at the given byte, as a whole
run of word characters. -/
def IsRunOf (offset : Nat) (cs : List Char) (token : Token) : Prop :=
  ∃ before after, cs = before ++ token.text.toList ++ after ∧
    token.offset = offset + byteLength before ∧ token.text ≠ "" ∧
    (∀ c ∈ token.text.toList, isWordChar c = true) ∧
    (∀ c ∈ before.getLast?, isWordChar c = false) ∧ EndsWord after

/-- A run of word characters has the kind of its text: a keyword if it is spelled like one, and a
value if not. -/
theorem Kind.ofChars_eq_ofRun {text : List Char} (word : ∀ c ∈ text, isWordChar c = true) :
    Kind.ofChars text = Kind.ofRun (String.ofList text) := by
  have isIn : String.ofList text = "in" ↔ text = ['i', 'n'] := String.ofList_inj
  have isNotin : String.ofList text = "notin" ↔ text = ['n', 'o', 't', 'i', 'n'] :=
    String.ofList_inj
  simp only [Kind.ofChars_of_word word, Kind.ofRun, isIn, isNotin]

theorem Kind.isPunctuation_ofRun (text : String) : (Kind.ofRun text).isPunctuation = false := by
  unfold ofRun
  split
  · rfl
  · split <;> rfl

/-- A word ends where its token does, because the token reaches over all of it. -/
theorem endsWord_drop_reach {c : Char} (plain : isMark c = false) (cs : List Char) :
    EndsWord (cs.drop (reach c cs).length) := by
  rw [drop_reach_of_plain plain]
  intro d head
  have stopped := List.head?_dropWhile_not isWordChar cs
  rw [Option.mem_def.mp head] at stopped
  exact stopped

/-- No word goes on behind its token, so what follows can be scanned by itself. -/
theorem not_wordsMeet_drop_reach (c : Char) (cs : List Char) :
    ¬ WordsMeet (c :: reach c cs) (cs.drop (reach c cs).length) := by
  rintro ⟨⟨d, last, word⟩, e, head, word'⟩
  cases mark : isMark c with
  | true =>
    have other := isWordChar_getLast?_punctuation mark cs d last
    exact absurd (other.symm.trans word) Bool.false_ne_true
  | false =>
    have other := endsWord_drop_reach mark cs e head
    exact absurd (other.symm.trans word') Bool.false_ne_true

/-- A run is one also behind other text, if words do not meet there: what was the front of the text
is then only farther from its beginning. -/
theorem IsRunOf.behind {offset : Nat} {front cs : List Char} {token : Token}
    (run : IsRunOf (offset + byteLength front) cs token) (apart : ¬ WordsMeet front cs) :
    IsRunOf offset (front ++ cs) token := by
  obtain ⟨before, after, rfl, place, nonempty, chars, left, right⟩ := run
  refine ⟨front ++ before, after, ?_, ?_, nonempty, chars, ?_, right⟩
  · simp only [List.append_assoc]
  · rw [place, Text.byteLength_append, Nat.add_assoc]
  · cases before with
    | nil =>
      obtain ⟨e, word, whole⟩ : ∃ e word, token.text.toList = e :: word :=
        List.exists_cons_of_ne_nil (by simpa using nonempty)
      rw [whole] at apart chars
      intro d last
      rw [List.append_nil] at last
      cases inWord : isWordChar d with
      | false => rfl
      | true => exact absurd ⟨⟨d, last, inWord⟩, e, rfl, chars e List.mem_cons_self⟩ apart
    | cons b before =>
      rwa [List.getLast?_append_of_ne_nil front (List.cons_ne_nil b before)]

/-- **Each word that is found is a run**, with the kind of a run. By the cases of the scan, where a
run of the rest is put behind what has been passed over. -/
theorem isRunOf_of_mem_scan {offset : Nat} {cs : List Char} {token : Token}
    (mem : token ∈ scan offset cs) (word : token.kind.isPunctuation = false) :
    IsRunOf offset cs token ∧ token.kind = Kind.ofRun token.text := by
  induction offset, cs using scan.induct with
  | case1 offset =>
    rw [scan_nil] at mem
    cases mem
  | case2 offset c cs blank ih =>
    rw [scan_blank offset blank] at mem
    obtain ⟨run, kind⟩ := ih mem
    have size : byteLength [c] = c.utf8Size := Nat.add_zero _
    have apart : ¬ WordsMeet [c] cs := by simp [WordsMeet, isWordChar_of_isBlank blank]
    rw [← size] at run
    exact ⟨run.behind apart, kind⟩
  | case3 offset c cs solid text ih =>
    rw [Bool.not_eq_true] at solid
    have parts : c :: cs = text ++ cs.drop (reach c cs).length := by
      rw [List.cons_append, reach_append_drop]
    rw [scan_token offset solid] at mem
    rcases List.mem_cons.mp mem with rfl | mem
    · have plain : isMark c = false := by rwa [Kind.isPunctuation_ofChars solid] at word
      have chars := isWordChar_of_mem_token solid plain cs
      refine ⟨⟨[], _, ?_, rfl, ?_, ?_, by simp, endsWord_drop_reach plain cs⟩,
        Kind.ofChars_eq_ofRun chars⟩
      · rw [String.toList_ofList]
        exact parts
      · simp
      · rwa [String.toList_ofList]
    · obtain ⟨run, kind⟩ := ih mem
      rw [parts]
      exact ⟨run.behind (not_wordsMeet_drop_reach c cs), kind⟩

/-- **Each run is found.** The scan is cut in front of the run and behind it, as words do not meet
at either end, and what is between is one token. -/
theorem mem_scan_of_isRunOf {offset : Nat} {cs : List Char} {token : Token}
    (run : IsRunOf offset cs token) (kind : token.kind = Kind.ofRun token.text) :
    token ∈ scan offset cs := by
  obtain ⟨before, after, rfl, place, nonempty, chars, left, right⟩ := run
  obtain ⟨_, text, _⟩ := token
  obtain rfl : _ = Kind.ofRun text := kind
  obtain rfl : _ = offset + byteLength before := place
  obtain ⟨c, word, whole⟩ : ∃ c word, text.toList = c :: word :=
    List.exists_cons_of_ne_nil (by simpa using nonempty)
  obtain rfl : text = String.ofList (c :: word) := by rw [← whole, String.ofList_toList]
  rw [whole] at chars ⊢
  have first : isWordChar c = true := chars c List.mem_cons_self
  have reaches : reach c (word ++ after) = word := by
    rw [reach_of_plain (isMark_of_isWordChar first)]
    exact takeWhile_append_of_endsWord (fun d mem => chars d (List.mem_cons_of_mem _ mem)) right
  have cut : scan offset (before ++ (c :: word ++ after)) =
      scan offset before ++ scan (offset + byteLength before) (c :: word ++ after) := by
    refine (scan_append_iff ..).mpr ⟨?_, ?_⟩
    · rintro ⟨⟨d, last, inWord⟩, -⟩
      exact absurd ((left d last).symm.trans inWord) Bool.false_ne_true
    · rintro ⟨-, ⟨⟩⟩
      exact absurd first (by decide)
  rw [List.append_assoc, cut, List.cons_append, scan_token _ (isBlank_of_isWordChar first), reaches,
    Kind.ofChars_eq_ofRun chars]
  exact List.mem_append_right _ List.mem_cons_self

end Token

/-- **Tokenizing is scanning by longest match.** The words among the tokens are the runs of word
characters, all of each: keywords where the whole run is one, and values everywhere else. -/
theorem tokenize_eq_scan (text : String) :
    tokenize text = .ok (Token.scan 0 text.toList) ∧
    ∀ token, token ∈ Token.scan 0 text.toList ∧ token.kind.isPunctuation = false ↔
      token.IsRunOf 0 text.toList ∧ token.kind = Token.Kind.ofRun token.text := by
  refine ⟨tokenize_eq_ok text, fun token => ⟨?_, ?_⟩⟩
  · rintro ⟨mem, word⟩
    exact Token.isRunOf_of_mem_scan mem word
  · rintro ⟨run, kind⟩
    exact ⟨Token.mem_scan_of_isRunOf run kind, by rw [kind, Token.Kind.isPunctuation_ofRun]⟩

/-- **Two texts are tokenized as one** if and only if neither words nor signs meet between them.
Then the tokens of the second stand behind those of the first, farther on by the bytes of the
first. -/
theorem tokenize_append_iff (first second : String) :
    ∃ tokens more, tokenize first = .ok tokens ∧ tokenize second = .ok more ∧
      (tokenize (first ++ second) =
          .ok (tokens ++ more.map (Token.shift (byteLength first.toList))) ↔
        ¬ Token.WordsMeet first.toList second.toList ∧
          ¬ Token.SignsMeet tokens (byteLength first.toList) second.toList) := by
  refine ⟨_, _, tokenize_eq_ok first, tokenize_eq_ok second, ?_⟩
  have law := Token.scan_append_iff 0 first.toList second.toList
  have behind := Token.scan_add (byteLength first.toList) 0 second.toList
  rw [Nat.add_zero] at behind
  rw [Nat.zero_add, behind] at law
  rw [tokenize_eq_ok, String.toList_append, Except.ok.injEq, law]

end LabelQuery
