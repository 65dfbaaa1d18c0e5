import Enumerant.Proofs.Header.Chunk
import Enumerant.Proofs.Header.Steps

/-!
# Code without declarations

Reading passes over code that declares nothing, so long as its braces are in balance and the word
`enum` stands in it only as the name of a type (`result_readTokens_append`). Code of that kind may
be put together from chunks (`Passes.append`), from lines (`Skipped`) and from chunks with words
between them, which may be any words at all (`Passes.filled`).
-/

namespace Enumerant.Header

open Text

variable {last depth d d₁ d₂ : Nat} {t : Token} {ts us : List Token} {l : Lexeme}
  {ls ls' : List Lexeme} {s a b : String} {rest : List Char}

/-! ### What a reading comes to -/

/-- What a reading adds up to, given a schema that it goes on from. -/
def Reading.result (r : Reading) (s : Schema) : Except Fault Schema :=
  match r.fault with
  | some fault => .error fault
  | none => .ok (r.items.foldl Item.addTo s)

theorem Reading.result_cons (item : Item) (r : Reading) (s : Schema) :
    (r.cons item).result s = r.result (item.addTo s) := rfl

theorem parse_eq_result (text : String) : parse text = (read text).result {} := rfl

/-! ### Passing over tokens -/

/-- Whether the lexemes behind an `enum` show that it only mentions a type. -/
def isMention : List Lexeme → Bool
  | .stray _ :: _ => true
  | .mark p :: _ => p ≠ .colon ∧ p ≠ .openBrace
  | .word name :: .mark p :: _ =>
    name ∉ ["enum", "class", "struct"] ∧ p ≠ .colon ∧ p ≠ .openBrace
  | _ => false

/-- The number of open braces behind some lexemes, given that in front of them. There is none if
they close more than is open or if they may declare something. -/
def depthBehind? (depth : Nat) : List Lexeme → Option Nat
  | [] => some depth
  | .mark .openBrace :: ls => depthBehind? (depth + 1) ls
  | .mark .closeBrace :: ls =>
    match depth with
    | 0 => none
    | depth + 1 => depthBehind? depth ls
  | .word name :: ls => if name = "enum" ∧ ¬ isMention ls then none else depthBehind? depth ls
  | _ :: ls => depthBehind? depth ls

/-- What follows a mention does not matter. -/
theorem isMention_append (h : isMention ls) (ls' : List Lexeme) : isMention (ls ++ ls') := by
  unfold isMention at h
  split at h
  · rfl
  · exact h
  · exact h
  · cases h

/-- Depths are counted on. -/
theorem depthBehind?_append (h : depthBehind? d ls = some d₁) (ls' : List Lexeme) :
    depthBehind? d (ls ++ ls') = depthBehind? d₁ ls' := by
  fun_induction depthBehind? d ls with
  | case1 =>
    cases h
    rfl
  | case2 d ls ih => exact ih h
  | case3 => cases h
  | case4 ls d ih => exact ih h
  | case5 => cases h
  | case6 d name ls hname ih =>
    rw [List.cons_append, depthBehind?, if_neg, ih h]
    rintro ⟨rfl, hmention⟩
    exact hname ⟨rfl, fun hls => hmention (isMention_append hls ls')⟩
  | case7 d l ls hopen hclose hword ih =>
    rw [List.cons_append, depthBehind?, ih h]
    · exact hopen
    · exact hclose
    · exact hword

/-- A token with which the body of an enumeration is given up. -/
structure EndsMention (t : Token) : Prop where
  not_remark : ∀ text, t.lexeme ≠ .remark text
  not_word : ∀ name, t.lexeme ≠ .word name
  not_colon : t.lexeme ≠ .mark .colon
  not_open : t.lexeme ≠ .mark .openBrace

/-- No body stands behind a tag that such a token follows. -/
theorem enumeration_of_tag (ht : EndsMention t) {tag : Option String}
    (h : optionalWord (afterScope us) = (tag, t :: ts)) (last : Nat) :
    enumeration last us = .ok (.bodiless tag t.line, t :: ts) := by
  unfold enumeration
  simp only [h, declaredWidth_cons ht.not_remark ht.not_colon, next?_cons ht.not_remark]
  split
  case h_1 heq =>
    cases heq
    exact absurd rfl ht.not_open
  case h_2 => rfl

/-- A keyword right in front of the end is a mention. -/
theorem enumeration_cons (ht : EndsMention t) (last : Nat) (ts : List Token) :
    enumeration last (t :: ts) = .ok (.bodiless none t.line, t :: ts) := by
  refine enumeration_of_tag ht ?_ last
  rw [afterScope_cons_of_ne ht.not_remark ht.not_word,
    optionalWord_cons_of_ne ht.not_remark ht.not_word]

/-- So is one with a tag. -/
theorem enumeration_cons_word {u : Token} {name : String} (hu : u.lexeme = .word name)
    (hname : ¬ (name = "class" ∨ name = "struct")) (ht : EndsMention t) (last : Nat)
    (ts : List Token) :
    enumeration last (u :: t :: ts) = .ok (.bodiless (some name) t.line, t :: ts) := by
  refine enumeration_of_tag ht ?_ last
  rw [afterScope_cons hu hname, optionalWord_cons hu]

/-- A type that is only mentioned adds nothing to a reading. -/
theorem result_readTokens_mention (ht : t.lexeme = .word "enum")
    (h : isMention (ts.map Token.lexeme)) (last depth : Nat) (us : List Token) (s : Schema) :
    (readTokens last depth (t :: (ts ++ us))).result s =
      (readTokens last depth (ts ++ us)).result s := by
  rw [readTokens_cons_enum ht]
  rcases ts with - | ⟨u, ts⟩
  · cases h
  rw [List.map_cons] at h
  rw [List.cons_append]
  unfold isMention at h
  -- A mention ends at once, in front of a word that is no tag, or behind a tag.
  split at h
  case h_1 heq =>
    rw [List.cons.injEq] at heq
    rw [enumeration_cons ⟨by simp [heq], by simp [heq], by simp [heq], by simp [heq]⟩]
    rfl
  case h_2 heq =>
    rw [List.cons.injEq] at heq
    simp only [decide_eq_true_eq] at h
    rw [enumeration_cons ⟨by simp [heq], by simp [heq], by simp [heq, h], by simp [heq, h]⟩]
    rfl
  case h_3 heq =>
    rcases ts with - | ⟨v, ts⟩
    · simp at heq
    simp only [List.map_cons, List.cons.injEq] at heq
    simp only [decide_eq_true_eq, List.mem_cons, List.not_mem_nil, or_false, not_or] at h
    obtain ⟨⟨henum, hclass, hstruct⟩, hcolon, hopen⟩ := h
    rw [List.cons_append, enumeration_cons_word heq.1 (by simp [hclass, hstruct])
      ⟨by simp [heq], by simp [heq], by simp [heq, hcolon], by simp [heq, hopen]⟩]
    rw [readTokens_cons (by simp [heq]) (by simp [heq]) (by simp [heq, henum])]
    rfl
  case h_4 => cases h

/-- **Reading passes over tokens that declare nothing.** -/
theorem result_readTokens_append (h : depthBehind? d (ts.map Token.lexeme) = some d₁)
    (last : Nat) (us : List Token) (s : Schema) :
    (readTokens last d (ts ++ us)).result s = (readTokens last d₁ us).result s := by
  induction ts generalizing d with
  | nil =>
    cases h
    rfl
  | cons t ts ih =>
    rw [List.map_cons] at h
    rw [List.cons_append]
    unfold depthBehind? at h
    split at h
    case h_1 heq => cases heq
    case h_2 heq =>
      rw [List.cons.injEq] at heq
      rw [readTokens_cons_open heq.1]
      exact ih (heq.2 ▸ h)
    case h_3 heq =>
      rw [List.cons.injEq] at heq
      -- A brace that closes more than was opened has no depth behind it.
      split at h
      case h_1 => cases h
      case h_2 depth =>
        rw [readTokens_cons_close heq.1]
        exact ih (heq.2 ▸ h)
    case h_4 name ls heq =>
      rw [List.cons.injEq] at heq
      obtain ⟨hname, rfl⟩ := heq
      split at h
      case isTrue => cases h
      case isFalse hmention =>
        by_cases henum : name = "enum"
        · rw [result_readTokens_mention (henum ▸ hname) (by simpa [henum] using hmention)]
          exact ih h
        · rw [readTokens_cons (by simp [hname]) (by simp [hname]) (by simp [hname, henum])]
          exact ih h
    case h_5 l ls hopen hclose hword heq =>
      rw [List.cons.injEq] at heq
      obtain ⟨rfl, rfl⟩ := heq
      rw [readTokens_cons hopen hclose (hword "enum")]
      exact ih h

/-! ### Passing over text -/

/-- Reading a text, given what follows it, leads from one number of open braces to another. -/
def Passes (s : String) (rest : List Char) (d d' : Nat) : Prop :=
  ∃ ps, Piece.Divides s rest ps ∧ depthBehind? d (ps.flatMap Piece.lexemes) = some d'

theorem Passes.nil (rest : List Char) (d : Nat) : Passes "" rest d d :=
  ⟨[], .nil rest, rfl⟩

/-- Texts are passed one after another. -/
theorem Passes.append (ha : Passes a (b.toList ++ rest) d d₁) (hb : Passes b rest d₁ d₂) :
    Passes (a ++ b) rest d d₂ := by
  obtain ⟨ps, hps, hd₁⟩ := ha
  obtain ⟨qs, hqs, hd₂⟩ := hb
  exact ⟨ps ++ qs, hps.append hqs, by rw [List.flatMap_append, depthBehind?_append hd₁, hd₂]⟩

/-- A word other than `enum`. -/
theorem Passes.word (h : IsWord s.toList) (hs : s ≠ "enum") (hrest : EndsRun isWordChar rest)
    (d : Nat) : Passes s rest d d :=
  ⟨_, .word h hrest, if_neg fun henum => hs henum.1⟩

/-- A text without lexemes. -/
theorem Passes.of_divides {ps : List Piece} (h : Piece.Divides s rest ps)
    (hps : ps.flatMap Piece.lexemes = []) (d : Nat) : Passes s rest d d :=
  ⟨ps, h, by rw [hps]; rfl⟩

/-! ### Chunks with words between them -/

/-- The lexemes of a text that stands for itself. -/
def lexemesOf (s : String) : List Lexeme :=
  (Piece.split false s.toList).flatMap Piece.lexemes

/-- Whether a text is divided alike on a fresh line and elsewhere, and its last piece ends there. -/
def isChunk (ends : Piece → Bool) (s : String) : Bool :=
  Piece.split true s.toList = Piece.split false s.toList ∧
    (Piece.split false s.toList).getLast?.all ends

/-- Chunks with words between them: the first chunk, the words, and the chunk behind each. -/
def filled (front : String) : List String → List String → String
  | word :: words, behind :: more => front ++ word ++ filled behind words more
  | _, _ => front

/-- The number of open braces behind chunks with words between them. There is none unless every
chunk after a word shows that the word declares nothing. -/
def depthBehindGaps? (depth : Nat) (front : String) : List String → Option Nat
  | [] => if isChunk Piece.isClosed front then depthBehind? depth (lexemesOf front) else none
  | behind :: more =>
    if isChunk Piece.isOpen front ∧ behind.toList.head?.any (!isWordChar ·) ∧
        isMention (lexemesOf behind) then
      (depthBehind? depth (lexemesOf front)).bind (depthBehindGaps? · behind more)
    else none

/-- The number of open braces behind chunks that are given as lists of characters. Evaluation finds
it without taking texts apart. -/
def depthBehindRuns? (depth : Nat) (front : List Char) : List (List Char) → Option Nat
  | [] =>
    let ps := Piece.split false front
    if Piece.split true front = ps ∧ ps.getLast?.all Piece.isClosed then
      depthBehind? depth (ps.flatMap Piece.lexemes)
    else none
  | behind :: more =>
    let ps := Piece.split false front
    if (Piece.split true front = ps ∧ ps.getLast?.all Piece.isOpen) ∧
        behind.head?.any (!isWordChar ·) ∧
        isMention ((Piece.split false behind).flatMap Piece.lexemes) then
      (depthBehind? depth (ps.flatMap Piece.lexemes)).bind (depthBehindRuns? · behind more)
    else none

/-- Names in gaps change no depth. -/
theorem depthBehindGaps?_ofList (depth : Nat) (front : List Char) (more : List (List Char)) :
    depthBehindGaps? depth (String.ofList front) (more.map String.ofList) =
      depthBehindRuns? depth front more := by
  induction more generalizing depth front with
  | nil =>
    simp only [List.map_nil, depthBehindGaps?, depthBehindRuns?, isChunk, lexemesOf,
      String.toList_ofList, decide_eq_true_eq]
  | cons behind more ih =>
    simp only [List.map_cons, depthBehindGaps?, depthBehindRuns?, isChunk, lexemesOf,
      String.toList_ofList, decide_eq_true_eq, ih]

theorem exists_toList_filled (front : String) (words more : List String) :
    ∃ cs, (filled front words more).toList = front.toList ++ cs := by
  unfold filled
  split
  · exact ⟨_, by rw [String.toList_append, String.toList_append, List.append_assoc]⟩
  · exact ⟨[], (List.append_nil _).symm⟩

/-- A chunk that starts with no word character ends the word in front of it. -/
theorem endsRun_filled {front : String} (h : front.toList.head?.any (!isWordChar ·))
    (words more : List String) (rest : List Char) :
    EndsRun isWordChar ((filled front words more).toList ++ rest) := by
  obtain ⟨cs, hcs⟩ := exists_toList_filled front words more
  obtain ⟨c, hc, hnot⟩ := (Option.any_eq_true _ _).mp h
  obtain ⟨bs, hbs⟩ := List.head?_eq_some_iff.mp hc
  rw [hcs, hbs]
  rintro d ⟨⟩
  simpa using hnot

/-- Be a word the keyword itself, what follows shows that it only mentions a type. -/
theorem depthBehind?_cons_word (h : isMention ls) (d : Nat) (word : String) :
    depthBehind? d (.word word :: ls) = depthBehind? d ls :=
  if_neg fun hword => hword.2 h

/-- The pieces of chunks with words between them start with those of the first chunk. -/
theorem exists_divides_filled {front : String} {words more : List String}
    (hlength : words.length = more.length) (hwords : ∀ w ∈ words, IsWord w.toList)
    (h : depthBehindGaps? d front more = some d₁) (rest : List Char) :
    ∃ qs, Piece.Divides (filled front words more) rest (Piece.split false front.toList ++ qs) ∧
      depthBehind? d ((Piece.split false front.toList ++ qs).flatMap Piece.lexemes) = some d₁ := by
  induction more generalizing front words d with
  | nil =>
    obtain rfl := List.eq_nil_of_length_eq_zero hlength
    rw [depthBehindGaps?] at h
    split at h
    case isTrue hchunk =>
      obtain ⟨hfresh, hlast⟩ := of_decide_eq_true hchunk
      exact ⟨[], by rw [List.append_nil]; exact .of_closed hfresh hlast, by
        rw [List.append_nil]; exact h⟩
    case isFalse => cases h
  | cons behind more ih =>
    obtain ⟨word, words, rfl⟩ := List.exists_cons_of_length_eq_add_one hlength
    obtain ⟨hword, hwords⟩ := List.forall_mem_cons.mp hwords
    rw [depthBehindGaps?] at h
    split at h
    case isTrue hall =>
      obtain ⟨hchunk, hhead, hmention⟩ := hall
      obtain ⟨hfresh, hlast⟩ := of_decide_eq_true hchunk
      obtain ⟨d', hd', h⟩ := Option.bind_eq_some_iff.mp h
      obtain ⟨qs, hqs, hdepth⟩ := ih (Nat.succ.inj hlength) hwords h
      -- The word ends where the next chunk begins, and the chunk in front of it ends open.
      have hrun := endsRun_filled hhead words more rest
      have hfront : Piece.Divides front ((word ++ filled behind words more).toList ++ rest)
          (Piece.split false front.toList) := by
        rw [String.toList_append, List.append_assoc]
        exact .of_open hfresh hlast hword
      have hbehind := (Piece.Divides.word hword hrun).append hqs
      have hmention' : isMention ((Piece.split false behind.toList ++ qs).flatMap
          Piece.lexemes) := by
        rw [List.flatMap_append]
        exact isMention_append hmention _
      refine ⟨_, by rw [filled, String.append_assoc]; exact hfront.append hbehind, ?_⟩
      rw [List.flatMap_append]
      exact (depthBehind?_append hd' _).trans
        ((depthBehind?_cons_word hmention' d' word).trans hdepth)
    case isFalse => cases h

/-- **Reading passes over chunks with words between them, whatever the words are.** -/
theorem Passes.filled {front : String} {more : List String} (words : List String)
    (hlength : words.length = more.length) (hwords : ∀ w ∈ words, IsWord w.toList)
    (h : depthBehindGaps? d front more = some d₁) (rest : List Char) :
    Passes (filled front words more) rest d d₁ := by
  obtain ⟨qs, hqs, hdepth⟩ := exists_divides_filled hlength hwords h rest
  exact ⟨_, hqs, hdepth⟩

/-- A fixed text is passed if its own tokens are. -/
theorem Passes.fixed (h : depthBehindGaps? d s [] = some d₁) (rest : List Char) :
    Passes s rest d d₁ :=
  Passes.filled [] rfl (fun _ hw => absurd hw List.not_mem_nil) h rest

end Enumerant.Header
