import CppDecl.Proofs.Isolation
import CppDecl.Proofs.Plain
import CppDecl.Proofs.Replacement

/-!
# Arguments as string literals

A `#` before a parameter writes the argument between quotes, with a backslash before each quote and
each backslash in it (`substitute_marked`).  Reading a literal takes each backslash together with what
follows it.  So the literal ends with the quote that was written last, whatever the argument has in
it, and it is read as one token wherever it stands (`readToken_quoted`).  Undoing the backslashes gives
the argument (`unquoted?_quoted`).

Both together are `stringized_roundTrip`: nothing is lost of an argument that is made a literal.
-/

namespace CppDecl

open Byte
open Text (encoded)

namespace Substitution

/-! ## Quoting -/

/-- The string literal that says a text. -/
def quoted (s : String) : String := String.ofList ('"' :: s.toList.flatMap escaped ++ ['"'])

/-- Characters without the backslashes that take the next character with them. -/
def unescaped : List Char → List Char
  | [] => []
  | '\\' :: c :: cs => c :: unescaped cs
  | c :: cs => c :: unescaped cs

/-- What a string literal says, if there are quotes at both of its ends. -/
def unquoted? (literal : String) : Option String :=
  match literal.toList with
  | '"' :: cs =>
    if cs.getLast? = some '"' then some (String.ofList (unescaped cs.dropLast)) else none
  | _ => none

variable {c : Char} {params args : List String}

/-- A character inside a literal is itself or has a backslash before it, and it has one if it is a
quote or a backslash. -/
theorem escaped_cases (c : Char) : (c ≠ '"' ∧ c ≠ '\\' ∧ escaped c = [c]) ∨ escaped c = ['\\', c] := by
  by_cases hback : c = '\\'
  · subst hback
    exact .inr rfl
  by_cases hquote : c = '"'
  · subst hquote
    exact .inr rfl
  · exact .inl ⟨hquote, hback, by rw [escaped] <;> assumption⟩

theorem unescaped_cons (h : c ≠ '\\') (cs : List Char) : unescaped (c :: cs) = c :: unescaped cs := by
  rw [unescaped]
  exact fun d ds hc => absurd hc h

/-- Undoing the backslashes gives back what they were put into. -/
theorem unescaped_flatMap_escaped (cs : List Char) : unescaped (cs.flatMap escaped) = cs := by
  induction cs with
  | nil => rfl
  | cons c cs ih =>
    rw [List.flatMap_cons]
    rcases escaped_cases c with ⟨-, hback, hc⟩ | hc
    · rw [hc, List.singleton_append, unescaped_cons hback, ih]
    · rw [hc, List.cons_append, List.singleton_append, unescaped, ih]

/-- What a literal says is what it was written for. -/
theorem unquoted?_quoted (s : String) : unquoted? (quoted s) = some s := by
  rw [unquoted?, quoted, String.toList_ofList]
  simp only [List.cons_append]
  rw [if_pos List.getLast?_concat, List.dropLast_concat, unescaped_flatMap_escaped, String.ofList_toList]

/-! ## Reading -/

/-- The quote that ends a literal is the one behind the argument. -/
theorem literalEnd?_escaped (cs : List Char) (bs : Bytes) :
    Lexeme.literalEnd? quote (encoded (cs.flatMap escaped) ++ quote :: bs) =
      some ((encoded (cs.flatMap escaped)).length + 1) := by
  induction cs with
  | nil => exact literalEnd?_mark (by decide) bs
  | cons c cs ih =>
    have hstep : Lexeme.literalEnd? quote (encoded (escaped c) ++
        (encoded (cs.flatMap escaped) ++ quote :: bs)) =
        (Lexeme.literalEnd? quote (encoded (cs.flatMap escaped) ++ quote :: bs)).map
          (· + (encoded (escaped c)).length) := by
      rcases escaped_cases c with ⟨hquote, hback, hc⟩ | hc
      · rw [hc, Text.encoded_cons, Text.encoded_nil, List.append_nil]
        exact @literalEnd?_plain c '"' (by decide) hquote hback _
      · rw [hc]
        exact @literalEnd?_escape '"' (by decide) c _
    rw [List.flatMap_cons, Text.encoded_append, List.append_assoc, hstep, ih, Option.map_some,
      List.length_append]
    congr 1
    omega

theorem bytes_quoted (s : String) :
    Text.bytes (quoted s) = quote :: (encoded (s.toList.flatMap escaped) ++ [quote]) := by
  rw [quoted, Text.bytes_ofList]
  show encoded ('"' :: (_ ++ ['"'])) = _
  rw [Text.encoded_cons_of_lt (by decide), Text.encoded_append, Text.encoded_cons_of_lt (by decide)]
  rfl

/-- A literal that says a text is one lexeme without faults, whatever follows it. -/
theorem scanFrom_quoted (s : String) (closeAnglesOnly lineStart : Bool) (beyond : Nat) (rest : Bytes) :
    Lexeme.scanFrom closeAnglesOnly lineStart beyond quote
        (encoded (s.toList.flatMap escaped) ++ quote :: rest) =
      { kind? := some .stringLiteral, len := (Text.bytes (quoted s)).length } := by
  have hlength : (Text.bytes (quoted s)).length =
      0 + 1 + ((encoded (s.toList.flatMap escaped)).length + 1) := by
    rw [bytes_quoted, List.length_cons, List.length_append, List.length_singleton]
    omega
  rw [Lexeme.scanFrom, if_neg (by decide), if_neg (by decide), if_neg (by simp [quote, slash]),
    if_neg (by simp [quote, slash]), if_pos (by decide), Lexeme.literal, literalEnd?_escaped, hlength]

end Substitution

open Substitution

namespace Reader

variable {r : Reader} {top : Frame} {below : List Frame} {s : String} {rest : Bytes}

/-- A literal that says a text is read as one token, wherever it stands and whatever follows it. -/
theorem readToken_quoted (h : r.Sound) (hframes : r.frames = top :: below)
    (hrest : top.rest = Text.bytes (quoted s) ++ rest) :
    ∃ r', r.readToken = .ok (⟨r.locOf top, .stringLiteral, quoted s⟩, r') ∧
      r'.frames = top.advance (Text.bytes (quoted s)).length :: below ∧ r'.errors = r.errors := by
  obtain ⟨w, -, hreads⟩ := h.window hframes
  have hbytes : top.rest = quote :: (encoded (s.toList.flatMap escaped) ++ quote :: rest) := by
    rw [hrest, bytes_quoted, List.cons_append, List.append_assoc, List.singleton_append]
  have hread := readToken_lexeme hframes hbytes hreads.missing_eq
    (scanFrom_quoted s r.closeAnglesOnly r.lineStart 0 rest) rfl (by decide) rfl
    (show Text.bytes (quoted s) = _ by rw [hrest, List.take_left])
  exact ⟨_, hread, rfl, List.append_nil r.errors⟩

end Reader

/-- A source that is nothing but such a literal has one token, however it is read. -/
theorem tokenizeWithin_quoted (config : Configuration) (path s : String) :
    ∃ visited, ∀ budget, 1 < budget → tokenizeWithin budget config path (quoted s) =
      .ok ⟨[⟨0, .stringLiteral, quoted s⟩], [], visited⟩ := by
  have hsound := Reader.sound_pushed config path (quoted s)
  obtain ⟨top, hframes, hrest, -, hloc, herrors⟩ := Reader.top_pushed config path (quoted s)
  rw [← List.append_nil (Text.bytes (quoted s))] at hrest
  obtain ⟨r₁, hread, hframes₁, herrors₁⟩ := Reader.readToken_quoted hsound hframes hrest
  obtain ⟨_, _, heq, hsound₁⟩ := hsound.readToken
  rw [hread] at heq
  cases heq
  obtain ⟨w, -, hreads⟩ := hsound₁.window hframes₁
  have hnothing : (top.advance (Text.bytes (quoted s)).length).rest = [] := by
    rw [Frame.advance, hrest, List.append_nil]
    exact List.drop_length
  have hlast := Reader.readToken_of_step (Reader.step_of_rest_nil hframes₁ hnothing hreads.missing_eq)
  rw [Reader.readToken_of_frames_nil (r := r₁.leave []) rfl] at hlast
  refine ⟨(r₁.leave []).visited, fun budget hbudget => ?_⟩
  have hall : ((Reader.new .empty config).push path (quoted s)).2.readAll budget =
      .ok ([⟨0, .stringLiteral, quoted s⟩, ⟨(r₁.leave []).endLoc, .endOfFile, ""⟩], r₁.leave []) := by
    obtain ⟨n, rfl⟩ : ∃ n, budget = n + 1 + 1 := ⟨budget - 2, by omega⟩
    rw [Reader.readAll, hread, hloc]
    simp only [bind, Except.bind]
    rw [Reader.readAll, hlast]
    rfl
  have heq : tokenizeWithin budget config path (quoted s) =
      (((Reader.new .empty config).push path (quoted s)).2.readAll budget).bind fun result =>
        .ok ⟨result.1.dropLast, result.2.errors, result.2.visited⟩ := rfl
  rw [heq, hall, Except.bind, Reader.errors_leave, herrors₁, herrors]
  rfl

/-! ## The mark `#` -/

namespace Substitution

variable {params args : List String} {name : String}

/-- A `#` before a name is one piece with it. -/
theorem pieces_marked (h : IsIdentifier name) :
    pieces (encoded ('#' :: name.toList)) = [.stringize [] (encoded name.toList)] := by
  obtain ⟨c, word, hchars, -, hall⟩ := h.eq_cons
  obtain ⟨b, bs, hbytes, -, hbytesAll⟩ := h.bytes_eq_cons
  have hgap : (encoded name.toList).takeWhile isSpace = [] :=
    @takeWhile_isSpace_encoded name.toList [] (by simp) (by simp [hchars, hall c List.mem_cons_self])
  have hrun := @takeWhile_encoded name.toList [] h.all (by simp)
  rw [List.append_nil] at hrun
  have hsingle : (encoded name.toList).head? ≠ some hash := by
    rw [← Text.bytes_eq_encoded, hbytes, List.head?_cons]
    rintro ⟨⟩
    exact absurd (hbytesAll hash List.mem_cons_self) (by decide)
  rw [Text.encoded_cons_of_lt (by decide), pieces_cons]
  show (firstPiece hash _).1 :: pieces (List.drop (firstPiece hash _).2 _) = _
  rw [firstPiece, if_neg (by decide), if_pos rfl, if_neg hsingle]
  simp only
  rw [hgap, List.length_nil, List.drop_zero, hrun, Nat.zero_add, List.drop_length, pieces]

/-- A `#` before a parameter becomes the literal that says the argument. -/
theorem substitute_marked (h : IsIdentifier name) (hparam : IsParameter params name) :
    substitute params args ("#" ++ name) = .ok (quoted (argumentFor params args name)) := by
  have hpieces : (pieces (encoded ("#" ++ name).toList)).mapM BodyPiece.decode =
      .ok [.stringize "" name] := by
    have hchars : ("#" ++ name).toList = '#' :: name.toList := by simp
    have hname : Text.ofBytes? (encoded name.toList) = some name := by
      rw [Text.ofBytes?_encoded, String.ofList_toList]
    rw [hchars, pieces_marked h, List.mapM_cons, BodyPiece.decode, hname]
    rfl
  rw [substitute_eq hpieces, List.foldl_cons, List.foldl_nil, write,
    argument?_eq (ne_dots_of_startsName h.starts), if_pos hparam]
  simp only
  rw [List.append_nil, List.reverse_reverse]
  rfl

/-- Nothing is lost of an argument that is made a literal.  A `#` before a parameter becomes one
string literal, which is read without faults, and what it says is the argument. -/
theorem stringized_roundTrip (params args : List String) {name : String} (hname : IsIdentifier name)
    (hparam : IsParameter params name) :
    ∃ literal, substitute params args ("#" ++ name) = .ok literal ∧
      (∀ config path, ∃ visited, ∀ budget, 1 < budget → tokenizeWithin budget config path literal =
        .ok ⟨[⟨0, .stringLiteral, literal⟩], [], visited⟩) ∧
      unquoted? literal = some (argumentFor params args name) ∧
      ∀ arg, args[params.idxOf name]? = some arg →
        name ≠ "__VA_ARGS__" ∨ params.getLast? ≠ some "..." →
        unquoted? literal = some (Text.trim arg) := by
  refine ⟨_, substitute_marked hname hparam, fun config path => tokenizeWithin_quoted config path _,
    unquoted?_quoted _, fun arg harg hvariadic => ?_⟩
  rw [unquoted?_quoted, argumentFor, if_neg (not_and_or.2 hvariadic), List.getD_eq_getElem?_getD, harg]
  rfl

theorem stringized_roundTrip_backslashAtEnd : IsIdentifier "x" ∧ IsParameter ["x"] "x" ∧
    substitute ["x"] [" a\"\\\n"] "#x" = .ok "\"a\\\"\\\\\"" ∧
    (∃ visited, tokenizeWithin 2 {} "a.h" "\"a\\\"\\\\\"" =
      .ok ⟨[⟨0, .stringLiteral, "\"a\\\"\\\\\""⟩], [], visited⟩) ∧
    unquoted? "\"a\\\"\\\\\"" = some "a\"\\" := by
  have hname : IsIdentifier "x" := ⟨by decide +kernel, by simp [isIdentifierChar]⟩
  have hparam : IsParameter ["x"] "x" := by decide
  obtain ⟨literal, hwritten, hread, hsays, -⟩ :=
    stringized_roundTrip ["x"] [" a\"\\\n"] hname hparam
  obtain rfl : "\"a\\\"\\\\\"" = literal := by
    have h : substitute ["x"] [" a\"\\\n"] "#x" = .ok "\"a\\\"\\\\\"" := by decide +kernel
    exact Except.ok.inj (h.symm.trans hwritten)
  obtain ⟨visited, hread⟩ := hread {} "a.h"
  have htrimmed : argumentFor ["x"] [" a\"\\\n"] "x" = "a\"\\" := by decide +kernel
  exact ⟨hname, hparam, hwritten, ⟨visited, hread 2 (by decide)⟩, hsays.trans (congrArg some htrimmed)⟩

end Substitution

end CppDecl
