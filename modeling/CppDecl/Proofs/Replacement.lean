import CppDecl.Proofs.Characters
import CppDecl.Proofs.Substitution

/-!
# Filling in replacement texts

A replacement text is cut byte by byte, but what it is cut into can be said of its characters.  If
there is no `#` in it, it falls into literals, runs of identifier characters that cannot be made
longer, and single other characters (`InPieces`).  Putting in the arguments replaces each run that
names a parameter by the text of its argument, all at once, and leaves the other pieces as they are
(`substitute_pieces`).
-/

namespace CppDecl

open Byte

/-! ## Pieces of a text without marks -/

namespace Substitution

open Text (encoded)

/-- The marks around literals. -/
def IsQuote (c : Char) : Prop := c = '"' ∨ c = '\''

/-- The characters of a literal behind its opening quote, and what follows it.  It goes up to and
with the next quote of the same kind, or to the end if there is none.  A backslash takes the next
character with it. -/
inductive Literal (mark : Char) : List Char → List Char → Prop
  /-- The closing quote. -/
  | closed {rest : List Char} : Literal mark [mark] rest
  /-- There is no closing quote. -/
  | ended : Literal mark [] []
  /-- There is no closing quote, and nothing that a backslash could take with it. -/
  | endedInEscape : Literal mark ['\\'] []
  /-- Any other character. -/
  | plain {c : Char} {text rest : List Char} (mark_ne : c ≠ mark) (backslash_ne : c ≠ '\\')
      (others : Literal mark text rest) : Literal mark (c :: text) rest
  /-- A backslash with the next character. -/
  | escape {c : Char} {text rest : List Char} (others : Literal mark text rest) :
      Literal mark ('\\' :: c :: text) rest

/-- A text falls into literals, runs of identifier characters that cannot be made longer, and single
other characters. -/
inductive InPieces : List Char → List (List Char) → Prop
  /-- Nothing falls into no pieces. -/
  | nil : InPieces [] []
  /-- A literal. -/
  | literal {mark : Char} {text rest : List Char} {pieces : List (List Char)} (quoted : IsQuote mark)
      (literal : Literal mark text rest) (others : InPieces rest pieces) :
      InPieces (mark :: (text ++ rest)) ((mark :: text) :: pieces)
  /-- A run of identifier characters. -/
  | run {c : Char} {word rest : List Char} {pieces : List (List Char)}
      (all : ∀ d ∈ c :: word, isIdentifierChar d = true)
      (border : ∀ d ∈ rest.head?, isIdentifierChar d = false) (others : InPieces rest pieces) :
      InPieces (c :: (word ++ rest)) ((c :: word) :: pieces)
  /-- Any other character. -/
  | other {c : Char} {rest : List Char} {pieces : List (List Char)} (unquoted : ¬ IsQuote c)
      (other : isIdentifierChar c = false) (others : InPieces rest pieces) :
      InPieces (c :: rest) ([c] :: pieces)

/-- The argument that a name stands for: the one at its first place among the parameters, trimmed, or
nothing if there is none.  If the last parameter is `...`, then `__VA_ARGS__` stands for all arguments
from there on, trimmed, with commas between them. -/
def argumentFor (params args : List String) (name : String) : String :=
  if name = "__VA_ARGS__" ∧ params.getLast? = some "..." then
    ", ".intercalate ((args.drop (params.length - 1)).map Text.trim)
  else
    Text.trim (args.getD (params.idxOf name) "")

/-- The name stands for an argument. -/
def IsParameter (params : List String) (name : String) : Prop :=
  name ∈ params ∨ name = "__VA_ARGS__" ∧ params.getLast? = some "..."

instance (params : List String) (name : String) : Decidable (IsParameter params name) :=
  inferInstanceAs (Decidable (_ ∨ _))

/-- What is written for a piece. -/
def filled (params args : List String) (piece : String) : String :=
  if startsName piece ∧ IsParameter params piece then argumentFor params args piece else piece

variable {c mark : Char} {cs text word rest : List Char} {ps : List (List Char)}
  {params args : List String}

/-! ### Literals -/

theorem literalEnd?_append {xs : Bytes} {m : UInt8} (h : ∀ b ∈ xs, b ≠ backslash ∧ b ≠ m)
    (bs : Bytes) :
    Lexeme.literalEnd? m (xs ++ bs) = (Lexeme.literalEnd? m bs).map (· + xs.length) := by
  induction xs with
  | nil => simp
  | cons x xs ih =>
    obtain ⟨⟨hescape, hmark⟩, hxs⟩ := List.forall_mem_cons.1 h
    rw [List.cons_append, Lexeme.literalEnd?.eq_def]
    simp only
    rw [if_neg hescape, if_neg hmark, ih hxs, Option.map_map]
    rfl

theorem literalEnd?_mark {m : UInt8} (h : m ≠ backslash) (bs : Bytes) :
    Lexeme.literalEnd? m (m :: bs) = some 1 := by
  rw [Lexeme.literalEnd?.eq_def]
  simp only [if_neg h, if_true]

/-- A character that is neither the quote nor a backslash is passed over. -/
theorem literalEnd?_plain (hmark : mark.toNat < 128) (h : c ≠ mark) (h' : c ≠ '\\') (bs : Bytes) :
    Lexeme.literalEnd? mark.toUInt8 (String.utf8EncodeChar c ++ bs) =
      (Lexeme.literalEnd? mark.toUInt8 bs).map (· + (String.utf8EncodeChar c).length) :=
  literalEnd?_append (fun _ hb => ⟨@Text.ne_of_mem_utf8EncodeChar c '\\' (by decide) h' _ hb,
    Text.ne_of_mem_utf8EncodeChar hmark h hb⟩) bs

/-- A backslash is passed over with the next character. -/
theorem literalEnd?_escape (hmark : mark.toNat < 128) (c : Char) (bs : Bytes) :
    Lexeme.literalEnd? mark.toUInt8 (encoded ['\\', c] ++ bs) =
      (Lexeme.literalEnd? mark.toUInt8 bs).map (· + (encoded ['\\', c]).length) := by
  obtain ⟨b, more, hc, hmore⟩ := Text.utf8EncodeChar_eq_cons c
  have hbytes : encoded ['\\', c] = backslash :: b :: more := by
    rw [Text.encoded_cons_of_lt (by decide), Text.encoded_cons, hc, Text.encoded_nil, List.append_nil]
    rfl
  have hhigh : ∀ a ∈ more, a ≠ backslash ∧ a ≠ mark.toUInt8 := fun a ha =>
    ⟨Text.ne_toUInt8_of_le (c := '\\') (by decide) (hmore a ha), Text.ne_toUInt8_of_le hmark (hmore a ha)⟩
  rw [hbytes, List.cons_append, List.cons_append, Lexeme.literalEnd?, if_pos rfl,
    literalEnd?_append hhigh, Option.map_map]
  rfl

theorem literalLength_append {xs bs : Bytes} {m : UInt8}
    (h : Lexeme.literalEnd? m (xs ++ bs) = (Lexeme.literalEnd? m bs).map (· + xs.length)) :
    literalLength m (xs ++ bs) = xs.length + literalLength m bs := by
  unfold literalLength
  rw [h]
  cases Lexeme.literalEnd? m bs with
  | none => simp
  | some n => simp [Nat.add_comm]

theorem IsQuote.lt (h : IsQuote mark) : mark.toNat < 128 := by
  rcases h with rfl | rfl <;> decide

/-- The bytes that a literal takes behind its opening quote are those of its characters. -/
theorem Literal.length_eq (hmark : IsQuote mark) (h : Literal mark text rest) :
    literalLength mark.toUInt8 (encoded (text ++ rest)) = (encoded text).length := by
  induction h with
  | @closed rest =>
    have hne : mark.toUInt8 ≠ backslash := by rcases hmark with rfl | rfl <;> decide
    rw [List.singleton_append, Text.encoded_cons_of_lt hmark.lt, Text.encoded_cons_of_lt hmark.lt,
      literalLength, literalEnd?_mark hne]
    rfl
  | ended => rfl
  | endedInEscape => rcases hmark with rfl | rfl <;> rfl
  | @plain c text rest hne hback _ ih =>
    rw [List.cons_append, Text.encoded_cons, literalLength_append (literalEnd?_plain hmark.lt hne hback _),
      ih, Text.encoded_cons, List.length_append]
  | @escape c text rest _ ih =>
    rw [show '\\' :: c :: text = ['\\', c] ++ text from rfl, List.append_assoc, Text.encoded_append,
      literalLength_append (literalEnd?_escape hmark.lt c _), ih, Text.encoded_append,
      List.length_append]

/-! ### Cutting -/

/-- A piece of a text without marks, by its bytes. -/
def bodyPiece (piece : List Char) : BodyPiece Bytes :=
  if startsName (String.ofList piece) then .name (encoded piece) else .verbatim (encoded piece)

/-- What follows a text does not make any piece of it longer: there is no literal in the text, and no
run of identifier characters goes on. -/
structure Apart (cs rest : List Char) : Prop where
  /-- There is no literal. -/
  unquoted : ∀ c ∈ cs, ¬ IsQuote c
  /-- No run goes on. -/
  border : (∀ c ∈ cs.getLast?, isIdentifierChar c = false) ∨
    ∀ c ∈ rest.head?, isIdentifierChar c = false

theorem Apart.tail {front : List Char} (h : Apart (front ++ cs) rest) : Apart cs rest := by
  refine ⟨fun c hc => h.unquoted c (List.mem_append_right _ hc), h.border.imp_left fun hlast c hc => ?_⟩
  refine hlast c ?_
  rw [List.getLast?_append, Option.mem_def.1 hc]
  rfl

theorem pieces_cons (b : UInt8) (bs : Bytes) :
    pieces (b :: bs) = (firstPiece b bs).1 :: pieces (bs.drop (firstPiece b bs).2) := by
  rw [pieces]

theorem pieces_literal (hmark : IsQuote mark) (h : Literal mark text rest) :
    pieces (encoded (mark :: (text ++ rest))) =
      bodyPiece (mark :: text) :: pieces (encoded rest) := by
  have hquote : mark.toUInt8 = quote ∨ mark.toUInt8 = apostrophe := by
    rcases hmark with rfl | rfl
    · exact .inl rfl
    · exact .inr rfl
  have hstarts : startsName (String.ofList (mark :: text)) = false := by
    rcases hmark with rfl | rfl <;> simp [startsName, isIdentifierChar]
  have hlength := h.length_eq hmark
  rw [Text.encoded_cons_of_lt hmark.lt, pieces_cons, firstPiece, if_pos (by simpa using hquote)]
  simp only
  rw [hlength, Text.encoded_append, List.take_left, List.drop_left, bodyPiece, hstarts,
    if_neg Bool.false_ne_true, Text.encoded_cons_of_lt hmark.lt]

theorem pieces_run (hword : ∀ d ∈ c :: word, isIdentifierChar d = true)
    (hborder : ∀ d ∈ rest.head?, isIdentifierChar d = false) :
    pieces (encoded (c :: (word ++ rest))) = bodyPiece (c :: word) :: pieces (encoded rest) := by
  obtain ⟨b, bs, hc, -⟩ := Text.utf8EncodeChar_eq_cons c
  have hb : isIdentifierByte b = true :=
    isIdentifierByte_of_mem (hword c List.mem_cons_self) (hc ▸ List.mem_cons_self)
  have hunmarked : ∀ m, isIdentifierByte m = false → b ≠ m := by
    rintro m hm rfl
    rw [hb] at hm
    cases hm
  have hrun := takeWhile_encoded hword hborder
  rw [List.cons_append, Text.encoded_cons, Text.encoded_cons, hc, List.cons_append,
    List.takeWhile_cons_of_pos hb, List.cons_append, List.cons.injEq] at hrun
  rw [Text.encoded_cons, hc, List.cons_append, pieces_cons, firstPiece,
    if_neg (by simp [hunmarked quote (by decide), hunmarked apostrophe (by decide)]),
    if_neg (hunmarked hash (by decide)), if_pos hb]
  simp only
  rw [hrun.2, Text.encoded_append, ← List.append_assoc, List.drop_left, bodyPiece, Text.encoded_cons, hc,
    isDigit_of_utf8EncodeChar hc]
  have hstarts : startsName (String.ofList (c :: word)) = !c.isDigit := by
    simp [startsName, hword c List.mem_cons_self]
  rw [hstarts]
  cases c.isDigit <;> rfl

theorem pieces_other (hquote : ¬ IsQuote c) (hhash : c ≠ '#') (hc : isIdentifierChar c = false)
    (rest : List Char) :
    pieces (encoded (c :: rest)) = bodyPiece [c] :: pieces (encoded rest) := by
  have hlt := lt_of_not_isIdentifierChar hc
  have hne : ∀ m : Char, m.toNat < 128 → c ≠ m → c.toUInt8 ≠ m.toUInt8 := fun m hm hcm =>
    Text.ne_of_mem_utf8EncodeChar hm hcm (by rw [Text.utf8EncodeChar_of_lt hlt]; simp)
  have hmarks : ¬ ((c.toUInt8 = quote || c.toUInt8 = apostrophe) = true) := by
    simp only [Bool.or_eq_true, decide_eq_true_eq]
    rintro (h | h)
    · exact hne '"' (by decide) (fun h => hquote (.inl h)) h
    · exact hne '\'' (by decide) (fun h => hquote (.inr h)) h
  have hbyte : ¬ isIdentifierByte c.toUInt8 = true := by
    rw [isIdentifierByte_toUInt8 hlt, hc]
    exact Bool.false_ne_true
  have hstarts : startsName (String.ofList [c]) = false := by simp [startsName, hc]
  rw [Text.encoded_cons_of_lt hlt, pieces_cons, firstPiece, if_neg hmarks,
    if_neg (show c.toUInt8 ≠ hash from hne '#' (by decide) hhash), if_neg hbyte]
  simp only
  rw [takeWhile_isContinuation (Text.whole_encoded rest), bodyPiece, hstarts, if_neg Bool.false_ne_true,
    Text.encoded_cons_of_lt hlt]
  rfl

/-- A text without a `#` is cut into its pieces, and so is what follows it. -/
theorem InPieces.pieces_eq (h : InPieces cs ps) (hhash : '#' ∉ cs) (hseam : rest = [] ∨ Apart cs rest) :
    pieces (encoded (cs ++ rest)) = ps.map bodyPiece ++ pieces (encoded rest) := by
  induction h with
  | nil => simp
  | @literal mark text rest' ps hmark hliteral _ ih =>
    rcases hseam with rfl | hapart
    · have hpieces := ih (fun hmem => hhash (by simp [hmem])) (.inl rfl)
      rw [List.append_nil] at hpieces ⊢
      rw [pieces_literal hmark hliteral, hpieces]
      rfl
    · exact absurd hmark (hapart.unquoted mark List.mem_cons_self)
  | @run c word rest' ps hall hborder _ ih =>
    have hpieces := ih (fun hmem => hhash (by simp [hmem]))
      (hseam.imp_right (@Apart.tail _ _ (c :: word)))
    have hborder' : ∀ d ∈ (rest' ++ rest).head?, isIdentifierChar d = false := by
      cases rest' with
      | cons d rest' => exact hborder
      | nil =>
        rcases hseam with rfl | hapart
        · simp
        · refine hapart.border.resolve_left fun hlast => ?_
          rw [List.append_nil] at hlast
          have hmem := List.getLast_mem (List.cons_ne_nil c word)
          have hfalse := hlast _ (List.getLast?_eq_some_getLast (List.cons_ne_nil c word))
          rw [hall _ hmem] at hfalse
          cases hfalse
    rw [show c :: (word ++ rest') ++ rest = c :: (word ++ (rest' ++ rest)) by simp,
      pieces_run hall hborder', hpieces]
    rfl
  | @other c rest' ps hquote hc _ ih =>
    have hpieces := ih (fun hmem => hhash (by simp [hmem]))
      (hseam.imp_right (@Apart.tail _ _ [c]))
    rw [List.cons_append, pieces_other hquote (fun h => hhash (by simp [h])) hc, hpieces]
    rfl

/-- There is a literal behind every quote. -/
theorem exists_literal (mark : Char) (cs : List Char) :
    ∃ text rest, cs = text ++ rest ∧ Literal mark text rest := by
  induction hlength : cs.length using Nat.strongRecOn generalizing cs with
  | ind n ih =>
    cases cs with
    | nil => exact ⟨[], [], rfl, .ended⟩
    | cons c cs =>
      rw [List.length_cons] at hlength
      by_cases hback : c = '\\'
      · subst hback
        cases cs with
        | nil => exact ⟨['\\'], [], rfl, .endedInEscape⟩
        | cons d cs =>
          rw [List.length_cons] at hlength
          obtain ⟨text, rest, rfl, hliteral⟩ := ih cs.length (by omega) cs rfl
          exact ⟨'\\' :: d :: text, rest, rfl, .escape hliteral⟩
      · by_cases hmark : c = mark
        · exact ⟨[mark], cs, by rw [hmark, List.singleton_append], .closed⟩
        · obtain ⟨text, rest, rfl, hliteral⟩ := ih cs.length (by omega) cs rfl
          exact ⟨c :: text, rest, rfl, .plain hmark hback hliteral⟩

/-- Every text falls into pieces. -/
theorem exists_inPieces (cs : List Char) : ∃ ps, InPieces cs ps := by
  induction hlength : cs.length using Nat.strongRecOn generalizing cs with
  | ind n ih =>
    cases cs with
    | nil => exact ⟨[], .nil⟩
    | cons c cs =>
      rw [List.length_cons] at hlength
      by_cases hquote : IsQuote c
      · obtain ⟨text, rest, rfl, hliteral⟩ := exists_literal c cs
        obtain ⟨ps, hps⟩ := ih rest.length (by rw [List.length_append] at hlength; omega) rest rfl
        exact ⟨_, .literal hquote hliteral hps⟩
      cases hident : isIdentifierChar c with
      | false =>
        obtain ⟨ps, hps⟩ := ih cs.length (by omega) cs rfl
        exact ⟨_, .other hquote hident hps⟩
      | true =>
        have hsplit := List.takeWhile_append_dropWhile (p := isIdentifierChar) (l := cs)
        have hle := (List.dropWhile_suffix (l := cs) isIdentifierChar).length_le
        obtain ⟨ps, hps⟩ := ih (cs.dropWhile isIdentifierChar).length (by omega) _ rfl
        rw [← hsplit]
        refine ⟨_, .run (List.forall_mem_cons.2 ⟨hident, ?_⟩) ?_ hps⟩
        · exact fun d hd => List.all_eq_true.1 List.all_takeWhile d hd
        · intro d hd
          have hnot := List.head?_dropWhile_not isIdentifierChar cs
          rw [Option.mem_def.1 hd] at hnot
          simpa using hnot

/-! ## Writing -/

/-- A piece of a text without marks. -/
def charPiece (piece : List Char) : BodyPiece String :=
  if startsName (String.ofList piece) then .name (String.ofList piece)
  else .verbatim (String.ofList piece)

theorem decode_bodyPiece (piece : List Char) : (bodyPiece piece).decode = .ok (charPiece piece) := by
  unfold bodyPiece charPiece
  split <;> rw [BodyPiece.decode, Text.ofBytes?_encoded] <;> rfl

theorem mapM_bodyPiece (ps : List (List Char)) :
    (ps.map bodyPiece).mapM BodyPiece.decode = .ok (ps.map charPiece) := by
  induction ps with
  | nil => rfl
  | cons p ps ih => rw [List.map_cons, List.mapM_cons, ih, decode_bodyPiece]; rfl

theorem mapM_append_ok {xs ys : List (BodyPiece Bytes)} {as bs : List (BodyPiece String)}
    (hxs : xs.mapM BodyPiece.decode = .ok as) (hys : ys.mapM BodyPiece.decode = .ok bs) :
    (xs ++ ys).mapM BodyPiece.decode = .ok (as ++ bs) := by
  rw [List.mapM_append, hxs, hys]
  rfl

/-- What a replacement text becomes is what its pieces become. -/
theorem substitute_eq {body : String} {ps : List (BodyPiece String)}
    (h : (pieces (encoded body.toList)).mapM BodyPiece.decode = .ok ps) :
    substitute params args body =
      .ok (String.ofList (ps.foldl (write (argument? params args)) []).reverse) := by
  rw [substitute, Text.bytes_eq_encoded, h]
  rfl

/-- A name that is looked up among the parameters stands for an argument or not. -/
theorem argument?_eq {name : String} (hname : name ≠ "...") : argument? params args name =
    if IsParameter params name then some (argumentFor params args name) else none := by
  have htrim : ∀ i : Nat, (args[i]?.map Text.trim).getD "" = Text.trim (args.getD i "") := by
    intro i
    rw [List.getD_eq_getElem?_getD]
    cases args[i]? with
    | none => rfl
    | some a => rfl
  have hsame : (fun p : String => p == name && p != "...") = (· == name) := by
    funext p
    by_cases hp : p = name
    · simp [hp, hname]
    · simp [hp]
  by_cases hvariadic : name = "__VA_ARGS__" ∧ params.getLast? = some "..."
  · rw [if_pos (show IsParameter params name from .inr hvariadic), argument?,
      if_pos (by simpa using hvariadic), argumentFor, if_pos hvariadic]
  · rw [argument?, if_neg (by simpa using hvariadic), hsame, List.findIdx?_eq_guard_findIdx_lt,
      argumentFor, if_neg hvariadic]
    by_cases hmem : name ∈ params
    · rw [if_pos (show IsParameter params name from .inl hmem), ← List.idxOf, Option.guard,
        if_pos (by simpa using List.idxOf_lt_length_iff.2 hmem), Option.map_some, htrim]
    · rw [if_neg (show ¬ IsParameter params name from not_or.2 ⟨hmem, hvariadic⟩), ← List.idxOf,
        Option.guard, if_neg (by simpa using mt List.idxOf_lt_length_iff.1 hmem), Option.map_none]

theorem ne_dots_of_startsName {name : String} (h : startsName name = true) : name ≠ "..." := by
  rintro rfl
  revert h
  decide

theorem write_charPiece (out piece : List Char) :
    write (argument? params args) out (charPiece piece) =
      (filled params args (String.ofList piece)).toList.reverse ++ out := by
  unfold charPiece filled
  split
  next hstarts =>
    rw [write, argument?_eq (ne_dots_of_startsName hstarts)]
    by_cases hparam : IsParameter params (String.ofList piece)
    · rw [if_pos hparam, if_pos ⟨hstarts, hparam⟩]
      rfl
    · rw [if_neg hparam, if_neg (fun h => hparam h.2)]
      rfl
  next hstarts =>
    rw [write, if_neg (fun h => hstarts h.1)]

theorem foldl_charPiece (out : List Char) (ps : List (List Char)) :
    (ps.map charPiece).foldl (write (argument? params args)) out =
      (String.join (ps.map fun p => filled params args (String.ofList p))).toList.reverse ++ out := by
  induction ps generalizing out with
  | nil => simp
  | cons p ps ih =>
    rw [List.map_cons, List.foldl_cons, write_charPiece, ih]
    simp [String.toList_join]

/-- A text without a `#` becomes what its pieces become, each for itself and in order. -/
theorem InPieces.substitute_eq {body : String} (h : InPieces body.toList ps) (hhash : '#' ∉ body.toList) :
    substitute params args body =
      .ok (String.join (ps.map fun p => filled params args (String.ofList p))) := by
  have hpieces := h.pieces_eq hhash (.inl rfl)
  rw [List.append_nil, Text.encoded_nil, pieces, List.append_nil] at hpieces
  rw [Substitution.substitute_eq (by rw [hpieces, mapM_bodyPiece]), foldl_charPiece, List.append_nil,
    List.reverse_reverse, String.ofList_toList]

/-- Arguments are put in all at once.  A text without a `#` falls into pieces, and however it does, it
becomes what its pieces become.  So no argument is looked through once it has been put in. -/
theorem substitute_pieces (params args : List String) {body : String} (hhash : '#' ∉ body.toList) :
    (∃ ps, InPieces body.toList ps) ∧ ∀ ps, InPieces body.toList ps →
      substitute params args body =
        .ok (String.join (ps.map fun p => filled params args (String.ofList p))) :=
  ⟨exists_inPieces body.toList, fun _ h => h.substitute_eq hhash⟩

theorem substitute_pieces_exchanged : '#' ∉ "a-b'a\\''1a".toList ∧
    substitute ["a", "b"] ["b", " a "] "a-b'a\\''1a" = .ok "b-a'a\\''1a" := by
  have hchars : "a-b'a\\''1a".toList = ['a', '-', 'b', '\'', 'a', '\\', '\'', '\'', '1', 'a'] := rfl
  have hliteral : Literal '\'' ['a', '\\', '\'', '\''] ['1', 'a'] :=
    .plain (by decide) (by decide) (.escape .closed)
  have hend : InPieces ['1', 'a'] [['1', 'a']] :=
    @InPieces.run '1' ['a'] [] [] (by simp [isIdentifierChar]) (by simp [isIdentifierChar]) .nil
  have hname : InPieces ['b', '\'', 'a', '\\', '\'', '\'', '1', 'a']
      [['b'], ['\'', 'a', '\\', '\'', '\''], ['1', 'a']] :=
    @InPieces.run 'b' [] _ _ (by simp [isIdentifierChar]) (by simp [isIdentifierChar])
      (.literal (.inr rfl) hliteral hend)
  have hpieces : InPieces "a-b'a\\''1a".toList
      [['a'], ['-'], ['b'], ['\'', 'a', '\\', '\'', '\''], ['1', 'a']] := by
    rw [hchars]
    exact @InPieces.run 'a' [] _ _ (by simp [isIdentifierChar]) (by simp [isIdentifierChar])
      (.other (by simp [IsQuote]) (by simp [isIdentifierChar]) hname)
  have hhash : '#' ∉ "a-b'a\\''1a".toList := by decide
  exact ⟨hhash, ((substitute_pieces ["a", "b"] ["b", " a "] hhash).2 _ hpieces).trans (by decide +kernel)⟩

end Substitution

end CppDecl
