import CppDecl.Proofs.Characters
import CppDecl.Proofs.Passing
import CppDecl.Proofs.Reader

/-!
# Uses of macros with arguments

The text behind the opening parenthesis of a macro use can be cut into tokens like any other text.
Its tokens say where the arguments should be: they end at the first closing parenthesis that has no
opening one, and they are cut at the commas before it that stand in no parentheses (`separators?`).

The arguments are read byte by byte, but what is found is the same (`readToken_invocation`).  This
holds as far as the text has no faults and no `#`, and if each raw literal in it ends with the first
quote that no backslash takes with it.  Raw literals have to be left out, since they are read as plain
ones: a parenthesis behind a quote in a raw literal ends the arguments
(`readToken_invocation_rawLiteral`).
-/

namespace CppDecl

open Byte
open Text (Run)
open Lexeme (ClosedByQuote)

/-! ## Separators -/

/-- The places of the commas that separate arguments, and of the parenthesis that closes them, when
`depth` inner parentheses are open. -/
def separators? (depth : Nat) : List Token → Option (List Nat × Nat)
  | [] => none
  | t :: ts =>
    if t.kind = .openParen then separators? (depth + 1) ts
    else if t.kind = .closeParen then
      if depth = 0 then some ([], t.loc.toNat) else separators? (depth - 1) ts
    else if t.kind = .comma ∧ depth = 0 then
      (separators? 0 ts).map fun (commas, close) => (t.loc.toNat :: commas, close)
    else separators? depth ts

/-- The stretches between separators, the first of which starts at the given place. -/
def stretches (start : Nat) : List Nat → Nat → List (Nat × Nat)
  | [], close => [(start, close)]
  | comma :: commas, close => (start, comma) :: stretches (comma + 1) commas close

variable {depth close base start shift opened n : Nat} {lineStart : Bool} {b : UInt8} {bs text : Bytes}
  {tokens : List Token} {errors : List LexError} {commas : List Nat} {scan : Scan} {kind : TokenKind}

/-- What the first of some tokens does for the separators among them. -/
inductive SeparatorsFrom (t : Token) (ts : List Token) (close : Nat) : Nat → List Nat → Prop
  /-- A parenthesis is opened. -/
  | opens {depth : Nat} {commas : List Nat} (kind_eq : t.kind = .openParen)
      (rest : separators? (depth + 1) ts = some (commas, close)) : SeparatorsFrom t ts close depth commas
  /-- An inner parenthesis is closed. -/
  | closes {depth : Nat} {commas : List Nat} (kind_eq : t.kind = .closeParen) (inner : depth ≠ 0)
      (rest : separators? (depth - 1) ts = some (commas, close)) : SeparatorsFrom t ts close depth commas
  /-- The arguments end. -/
  | ends (kind_eq : t.kind = .closeParen) (close_eq : close = t.loc.toNat) :
      SeparatorsFrom t ts close 0 []
  /-- A comma separates arguments. -/
  | separates {commas : List Nat} (kind_eq : t.kind = .comma)
      (rest : separators? 0 ts = some (commas, close)) :
      SeparatorsFrom t ts close 0 (t.loc.toNat :: commas)
  /-- A comma stands in inner parentheses. -/
  | comma {depth : Nat} {commas : List Nat} (kind_eq : t.kind = .comma) (inner : depth ≠ 0)
      (rest : separators? depth ts = some (commas, close)) : SeparatorsFrom t ts close depth commas
  /-- The token is neither a parenthesis nor a comma. -/
  | other {depth : Nat} {commas : List Nat} (kind_ne : t.kind ∉ [.openParen, .closeParen, .comma])
      (rest : separators? depth ts = some (commas, close)) : SeparatorsFrom t ts close depth commas

theorem separatorsFrom_of_separators? {t : Token} {ts : List Token}
    (h : separators? depth (t :: ts) = some (commas, close)) : SeparatorsFrom t ts close depth commas := by
  rw [separators?] at h
  split at h
  next hopen => exact .opens hopen h
  next hopen =>
    split at h
    next hclose =>
      split at h
      next hdepth =>
        cases h
        subst hdepth
        exact .ends hclose rfl
      next hdepth => exact .closes hclose hdepth h
    next hclose =>
      split at h
      next hcomma =>
        obtain ⟨hcomma, rfl⟩ := hcomma
        obtain ⟨⟨commas', close'⟩, hrest, heq⟩ := Option.map_eq_some_iff.1 h
        cases heq
        exact .separates hcomma hrest
      next hcomma =>
        by_cases hinner : t.kind = .comma
        · exact .comma hinner (fun hdepth => hcomma ⟨hinner, hdepth⟩) h
        · exact .other (by simp [hopen, hclose, hinner]) h

/-- The closing parenthesis is one of the tokens. -/
theorem exists_closer (h : separators? depth tokens = some (commas, close)) :
    ∃ t ∈ tokens, close = t.loc.toNat := by
  induction tokens generalizing depth commas with
  | nil => cases h
  | cons t ts ih =>
    have hmore : ∀ {depth commas}, separators? depth ts = some (commas, close) →
        ∃ u ∈ t :: ts, close = u.loc.toNat := fun h =>
      (ih h).imp fun _ hu => ⟨List.mem_cons_of_mem t hu.1, hu.2⟩
    cases separatorsFrom_of_separators? h with
    | ends _ hclose => exact ⟨t, List.mem_cons_self, hclose⟩
    | opens _ hrest | closes _ _ hrest | separates _ hrest | comma _ _ hrest | other _ hrest =>
      exact hmore hrest

/-- The closing parenthesis stands behind what comes before the tokens. -/
theorem Lexes.le_close (h : Lexes base lineStart bs tokens errors)
    (hsep : separators? depth tokens = some (commas, close)) : base ≤ close ∧ bs ≠ [] := by
  obtain ⟨t, ht, rfl⟩ := exists_closer hsep
  have hle := h.le_loc t ht
  refine ⟨by grind, ?_⟩
  rintro rfl
  cases h
  cases ht

/-! ## Reading single bytes -/

namespace Arguments

variable {arg rest : Bytes}

/-- As long as its 32 bits hold it, the level is the depth of inner parentheses. -/
theorem level_eq (h : depth < countRange / 2) : level depth = depth := by
  refine Int.bmod_eq_of_le_mul_two ?_ ?_ <;> simp only [countRange] at * <;> omega

theorem readFrom_opening : readFrom 0 opened n start depth arg (openParen :: rest) =
    readFrom 0 opened (n + 1) start (depth + 1) (openParen :: arg) rest := by
  rw [readFrom.eq_def]
  rfl

theorem readFrom_closing (hdepth : depth ≠ 0) (hlevel : depth < countRange / 2) :
    readFrom 0 opened n start depth arg (closeParen :: rest) =
      readFrom 0 opened (n + 1) start (depth - 1) (closeParen :: arg) rest := by
  rw [readFrom.eq_def]
  exact if_neg (by rw [level_eq hlevel]; omega)

theorem readFrom_end : readFrom 0 opened n start 0 arg (closeParen :: rest) =
    .found [(start, arg.reverse)] (n + 1) := by
  rw [readFrom.eq_def]
  rfl

theorem readFrom_comma (hdepth : depth ≠ 0) (hlevel : depth < countRange / 2) :
    readFrom 0 opened n start depth arg (comma :: rest) =
      readFrom 0 opened (n + 1) start depth (comma :: arg) rest := by
  rw [readFrom.eq_def]
  exact if_neg (by rw [level_eq hlevel]; omega)

theorem readFrom_separator {arguments : List (Nat × Bytes)} {stop : Nat}
    (h : readFrom 0 opened (n + 1) (n + 1) 0 [] rest = .found arguments stop) :
    readFrom 0 opened n start 0 arg (comma :: rest) = .found ((start, arg.reverse) :: arguments) stop := by
  rw [readFrom.eq_def]
  simp only [show piece 0 comma rest = .separator from rfl, show level 0 = 0 from rfl, if_true, h]

/-- What has been read of an argument grows by what is passed over. -/
theorem reverse_taken (htext : text.drop base = bs) (hne : bs ≠ []) (hstart : start ≤ base) (n : Nat) :
    ((text.take (base + n)).drop start).reverse =
      (bs.take n).reverse ++ ((text.take base).drop start).reverse := by
  have hlt : base < text.length := by
    by_contra hle
    exact hne (by rw [← htext, List.drop_eq_nil_of_le (by omega)])
  rw [List.take_add, htext, List.drop_append_of_le_length (by rw [List.length_take]; omega),
    List.reverse_append]

end Arguments

/-! ## Arguments and tokens -/

namespace Lexeme

/-- A parenthesis or a comma is a lexeme of one byte. -/
theorem eq_spelled (hscan : scanFrom false lineStart 0 b bs = scan) (hkind : scan.kind? = some kind)
    (hmark : kind ∈ [.openParen, .closeParen, .comma]) : [b] = spellingBytes kind ∧ scan.len = 1 := by
  have hb : b ≠ hash := by
    rintro rfl
    rw [← hscan] at hkind
    rw [kind_hash hkind] at hmark
    revert hmark
    decide
  have hclassed := classed_scanFrom false lineStart bs hb
  rw [hscan] at hclassed
  obtain ⟨rest, hbytes, hlen⟩ := hclassed.spelled hkind hmark
  have hone : (spellingBytes kind).length = 1 := by
    have hall : ∀ kind ∈ [TokenKind.openParen, .closeParen, .comma], (spellingBytes kind).length = 1 := by
      decide
    exact hall kind hmark
  obtain ⟨c, hc⟩ := List.length_eq_one_iff.1 hone
  rw [hc, List.singleton_append] at hbytes
  rw [hc, hlen, hone, (List.cons.inj hbytes).1]
  exact ⟨rfl, rfl⟩

/-- A lexeme that ends before the closing parenthesis is no directive and has no faults. -/
theorem faultless (hscan : scanFrom false lineStart 0 b bs = scan) (htext : text.drop base = b :: bs)
    (hhash : hash ∉ text.take close)
    (hfaults : ∀ e ∈ scan.faults.map (Fault.locate base), (close : LinearLoc) < e.loc)
    (hle : base + scan.len ≤ close) : b ≠ hash ∧ scan.faults = [] := by
  have hpos := (fits_scanFrom false lineStart b bs).pos
  rw [hscan] at hpos
  have hb : b ≠ hash := by
    rintro rfl
    refine hhash (List.mem_iff_getElem?.2 ⟨base, ?_⟩)
    rw [List.getElem?_take_of_lt (by omega), ← Nat.add_zero base, ← List.getElem?_drop, htext]
    rfl
  refine ⟨hb, List.eq_nil_iff_forall_not_mem.2 fun f hf => ?_⟩
  have hclassed := classed_scanFrom false lineStart bs hb
  rw [hscan] at hclassed
  have hoffset := hclassed.offset_le f hf
  have hloc := hfaults _ (List.mem_map_of_mem hf)
  simp only [Fault.locate] at hloc
  grind

end Lexeme

/-- Reading arguments goes on behind what is passed over. -/
theorem Arguments.Passed.readFrom_eq {close' : Arguments} {m : Nat} (h : Arguments.Passed bs n)
    (htext : text.drop base = bs) (hne : bs ≠ []) (hstart : start ≤ base)
    (hrest : Arguments.readFrom 0 opened (shift + (base + n)) m depth
      ((text.take (base + n)).drop start).reverse (bs.drop n) = close') :
    Arguments.readFrom 0 opened (shift + base) m depth ((text.take base).drop start).reverse bs =
      close' := by
  rw [h, Nat.add_assoc, ← Arguments.reverse_taken htext hne hstart n, hrest]

open Arguments in
/-- Reading arguments finds the stretches between the separators among the tokens.  No more parentheses
are open than there are bytes in front, so their level does not wrap around. -/
theorem Lexes.readFrom_eq (h : Lexes base lineStart bs tokens errors) (htext : text.drop base = bs)
    (hsep : separators? depth tokens = some (commas, close))
    (hfaults : ∀ e ∈ errors, (close : LinearLoc) < e.loc) (hhash : hash ∉ text.take close)
    (hraw : ∀ t ∈ tokens, t.loc < close → ClosedByQuote (Text.bytes t.text)) (hstart : start ≤ base)
    (hdepth : depth ≤ base) (hsmall : close < countRange / 2) :
    readFrom 0 opened (shift + base) (shift + start) depth ((text.take base).drop start).reverse bs =
      .found ((stretches start commas close).map fun s => (shift + s.1, (text.take s.2).drop s.1))
        (shift + close + 1) := by
  have hdrop : ∀ {n base : Nat} {bs : Bytes}, text.drop base = bs → text.drop (base + n) = bs.drop n := by
    rintro n base bs rfl
    exact List.drop_drop.symm
  induction h generalizing depth commas start with
  | done => cases hsep
  | @skip base lineStart b bs scan tokens errors hscan hkind hlexes ih =>
    obtain ⟨hle, -⟩ := hlexes.le_close hsep
    obtain ⟨hb, hnone⟩ := Lexeme.faultless hscan htext hhash
      (fun e he => hfaults e (List.mem_append_left _ he)) hle
    have hfits := Lexeme.fits_scanFrom false lineStart b bs
    have hskipped := Lexeme.scanFrom_skipped (hscan.symm ▸ hkind)
    rw [hscan] at hfits hskipped
    -- what is skipped without a fault is blank
    rw [hnone] at hskipped
    have hblank := hskipped.resolve_right (by simp)
    have hrun : Run isBlank (b :: bs) scan.len := ⟨hfits.le, hblank⟩
    refine (Passed.inert (hrun.mono (isInert_of (by decide +kernel)))).readFrom_eq htext
      (List.cons_ne_nil b bs) hstart ?_
    exact ih (hdrop htext) hsep (fun e he => hfaults e (List.mem_append_right _ he)) hraw (by omega)
      (by omega)
  | @token base lineStart b bs scan kind name tokens errors hscan hkind hname hlexes ih =>
    have htaken := reverse_taken htext (List.cons_ne_nil b bs) hstart 1
    have hfaults' := fun e he => hfaults e (List.mem_append_right _ he)
    have hraw' := fun t ht => hraw t (List.mem_cons_of_mem _ ht)
    -- a parenthesis or a comma is the first byte
    have hmarked : ∀ mark, kind ∈ [.openParen, .closeParen, .comma] →
        Lexeme.spellingBytes kind = [mark] → b = mark ∧ scan.len = 1 := by
      intro mark hkind' hspelled
      obtain ⟨hb, hlen⟩ := Lexeme.eq_spelled hscan hkind hkind'
      exact ⟨List.singleton_inj.1 (hb.trans hspelled), hlen⟩
    -- more tokens follow up to the parenthesis that closes the arguments
    have hlevel : scan.len = 1 → ∀ {depth' commas'}, separators? depth' tokens = some (commas', close) →
        depth < countRange / 2 := by
      intro hlen depth' commas' hsep'
      have hle := (hlexes.le_close hsep').1
      omega
    cases separatorsFrom_of_separators? hsep with
    | opens hkind' hsep' =>
      obtain rfl : kind = .openParen := hkind'
      obtain ⟨rfl, hlen⟩ := hmarked openParen (by decide) (by decide)
      rw [hlen] at ih
      have hrest := ih (hdrop htext) hsep' hfaults' hraw' (Nat.le_succ_of_le hstart) (by omega)
      rw [htaken] at hrest
      rw [readFrom_opening]
      exact hrest
    | closes hkind' hinner hsep' =>
      obtain rfl : kind = .closeParen := hkind'
      obtain ⟨rfl, hlen⟩ := hmarked closeParen (by decide) (by decide)
      rw [hlen] at ih
      have hrest := ih (hdrop htext) hsep' hfaults' hraw' (Nat.le_succ_of_le hstart) (by omega)
      rw [htaken] at hrest
      rw [readFrom_closing hinner (hlevel hlen hsep')]
      exact hrest
    | ends hkind' hclose =>
      obtain rfl : kind = .closeParen := hkind'
      obtain ⟨rfl, -⟩ := hmarked closeParen (by decide) (by decide)
      obtain rfl : close = base := hclose
      rw [readFrom_end, List.reverse_reverse]
      rfl
    | separates hkind' hsep' =>
      obtain rfl : kind = .comma := hkind'
      obtain ⟨rfl, hlen⟩ := hmarked comma (by decide) (by decide)
      rw [hlen] at ih
      have hrest := ih (hdrop htext) hsep' hfaults' hraw' (Nat.le_refl (base + 1)) (Nat.zero_le _)
      rw [List.drop_of_length_le (by rw [List.length_take]; omega), List.reverse_nil] at hrest
      refine (readFrom_separator hrest).trans ?_
      rw [List.reverse_reverse]
      rfl
    | comma hkind' hinner hsep' =>
      obtain rfl : kind = .comma := hkind'
      obtain ⟨rfl, hlen⟩ := hmarked comma (by decide) (by decide)
      rw [hlen] at ih
      have hrest := ih (hdrop htext) hsep' hfaults' hraw' (Nat.le_succ_of_le hstart) (by omega)
      rw [htaken] at hrest
      rw [readFrom_comma hinner (hlevel hlen hsep')]
      exact hrest
    | other hkind' hsep' =>
      obtain ⟨hle, hne⟩ := hlexes.le_close hsep'
      obtain ⟨hb, hnone⟩ := Lexeme.faultless hscan htext hhash
        (fun e he => hfaults e (List.mem_append_left _ he)) hle
      have hpos := (Lexeme.fits_scanFrom false lineStart b bs).pos
      have hclassed := Lexeme.classed_scanFrom false lineStart bs hb
      rw [hscan] at hpos hclassed
      have hclosed := hraw _ List.mem_cons_self (Int.ofNat_lt.2 (by omega))
      rw [hname] at hclosed
      have hpassed := hclassed.passed hnone hclosed hne (by
        rw [hkind]
        rintro _ ⟨⟩
        exact hkind')
      refine hpassed.readFrom_eq htext (List.cons_ne_nil b bs) hstart ?_
      exact ih (hdrop htext) hsep' hfaults' hraw' (by omega) (by omega)

/-- Reading the arguments of a macro use finds the stretches between the separators. -/
theorem Lexes.read_eq {text gap : Bytes} (h : Lexes 0 true text tokens errors)
    (hsep : separators? 0 tokens = some (commas, close))
    (hfaults : ∀ e ∈ errors, (close : LinearLoc) < e.loc) (hhash : hash ∉ text.take close)
    (hraw : ∀ t ∈ tokens, t.loc < close → ClosedByQuote (Text.bytes t.text))
    (hgap : ∀ b ∈ gap, isBlank b = true) (hsmall : close < countRange / 2) :
    Arguments.read 0 (gap ++ openParen :: text) =
      .found ((stretches 0 commas close).map fun s =>
          (gap.length + 1 + s.1, (text.take s.2).drop s.1)) (gap.length + 1 + close + 1) := by
  have hrun : (gap ++ openParen :: text).takeWhile isBlank = gap := by
    rw [List.takeWhile_append_of_pos hgap, List.takeWhile_cons_of_neg (by decide), List.append_nil]
  have hfound := @Lexes.readFrom_eq 0 close 0 0 (gap.length + 1) gap.length true text text tokens errors
    commas h rfl hsep hfaults hhash hraw (Nat.le_refl 0) (Nat.le_refl 0) hsmall
  rw [Arguments.read, hrun]
  simp only [List.drop_left, if_true]
  exact hfound

/-! ## Reading a use -/

namespace Lexeme

open Substitution (IsIdentifier)

/-- An identifier is one lexeme, if what follows is no identifier byte and no quote. -/
theorem scanFrom_identifier {name : String} (hname : IsIdentifier name) (closeAnglesOnly lineStart : Bool)
    {b c : UInt8} {bs rest : Bytes} (hbytes : b :: bs = Text.bytes name ++ c :: rest)
    (hc : isIdentifierByte c = false ∧ c ≠ quote ∧ c ≠ apostrophe) :
    scanFrom closeAnglesOnly lineStart 0 b bs =
      { kind? := some .identifier, len := (Text.bytes name).length,
        seen := (Text.bytes name).length + 1 } := by
  obtain ⟨a, as, hfirst, hdigit, hall⟩ := hname.bytes_eq_cons
  rw [hfirst] at hbytes ⊢
  obtain rfl : b = a := (List.cons.inj hbytes).1
  have hrun : (b :: bs).takeWhile isIdentifierByte = b :: as := by
    rw [hbytes, List.takeWhile_append_of_pos hall, List.takeWhile_cons_of_neg (by simp [hc.1]),
      List.append_nil]
  rw [scanFrom_word closeAnglesOnly lineStart 0 bs (hall b List.mem_cons_self) hdigit, word, hrun]
  simp only
  rw [hbytes, List.drop_left]
  simp only
  rw [if_neg (by simp [hc.2.1]), if_neg (by simp [hc.2])]

end Lexeme

/-- What is done with each member of a list has an answer for each. -/
theorem Halt.forall₂_of_mapM {α β : Type} {f : α → Except Halt β} {xs : List α} {ys : List β}
    (h : xs.mapM f = .ok ys) : List.Forall₂ (fun x y => f x = .ok y) xs ys := by
  induction xs generalizing ys with
  | nil =>
    cases h
    exact .nil
  | cons x xs ih =>
    rw [List.mapM_cons] at h
    obtain ⟨y, hy, h⟩ := Halt.bind_eq_ok h
    obtain ⟨ys', hys, h⟩ := Halt.bind_eq_ok h
    cases h
    exact .cons hy (ih hys)

namespace Reader

variable {r r' : Reader} {top : Frame} {below : List Frame}

/-- Entering a macro puts a frame on top, and changes neither the arguments nor the faults. -/
theorem expand_eq_ok {body : Nat} {name : String} {loc : LinearLoc} {parent : Frame} {callSite : Nat}
    {t : Token} (h : r.expand body name loc parent callSite = .ok (t, r')) :
    t = ⟨loc, .macroUse, name⟩ ∧ (∃ new, r'.frames = new :: r.frames) ∧ r'.args = r.args ∧
      r'.errors = r.errors := by
  obtain ⟨rfl, filled, w, rfl⟩ := entered_of_expand h
  exact ⟨rfl, ⟨_, rfl⟩, rfl, rfl⟩

/-- A reader stands before the use of a macro that takes arguments: the name, blanks, and a text behind
an opening parenthesis. -/
structure Invokes (r : Reader) (top : Frame) (below : List Frame) (name : String) (gap : Bytes)
    (text : String) : Prop where
  /-- The frame that the use is read from. -/
  frames : r.frames = top :: below
  /-- The name is an identifier. -/
  identifier : Substitution.IsIdentifier name
  /-- There are only blanks before the parenthesis. -/
  blank : ∀ b ∈ gap, isBlank b = true
  /-- The frame has the use before it. -/
  rest : top.rest = Text.bytes name ++ (gap ++ openParen :: Text.bytes text)
  /-- The name is that of a macro that takes arguments and is not being expanded. -/
  active : ∃ body definition, r.activeMacro? name = some body ∧
    r.visited.bodies[body]? = some definition ∧ definition.takesArgs = true

/-- The token is the argument that stands in a stretch of the text, whose first byte is at `base`. -/
structure IsArgument (base : LinearLoc) (text : Bytes) (arg : Token) (stretch : Nat × Nat) : Prop where
  /-- The token is an argument. -/
  kind_eq : arg.kind = .macroArgument
  /-- The token stands where the stretch starts. -/
  loc_eq : arg.loc = base + stretch.1
  /-- The token has the text of the stretch. -/
  bytes_eq : Text.bytes arg.text = (text.take stretch.2).drop stretch.1

/-- The use of a macro is read as far as the parenthesis that closes its arguments, if they are found
there. -/
theorem Invokes.readToken {name text : String} {gap : Bytes} (h : r.Invokes top below name gap text)
    (hsound : r.Sound) {found : List (Nat × Bytes)} {stop : Nat}
    (hfound : Arguments.read 0 (gap ++ openParen :: Text.bytes text) = .found found stop) :
    ∃ r' new, r.readToken = .ok (⟨r.locOf top, .macroUse, name⟩, r') ∧
      r'.frames = new :: top.advance ((Text.bytes name).length + stop) :: below ∧
      r'.errors = r.errors ∧
      List.Forall₂ (fun arg (a : Nat × Bytes) => arg.kind = .macroArgument ∧
        arg.loc = r.locOf top + (Text.bytes name).length + a.1 ∧ Text.bytes arg.text = a.2)
        r'.args found := by
  obtain ⟨w, -, hreads⟩ := hsound.window h.frames
  obtain ⟨body, definition, hactive, hbody, htakes⟩ := h.active
  obtain ⟨c, rest, hbehind, hc⟩ : ∃ c rest, gap ++ openParen :: Text.bytes text = c :: rest ∧
      isIdentifierByte c = false ∧ c ≠ quote ∧ c ≠ apostrophe := by
    have hgap := h.blank
    cases gap with
    | nil => exact ⟨openParen, Text.bytes text, rfl, by decide⟩
    | cons c gap =>
      refine ⟨c, gap ++ openParen :: Text.bytes text, rfl, ?_⟩
      have hblank := hgap c List.mem_cons_self
      simp only [isBlank, Bool.or_eq_true, beq_iff_eq] at hblank
      rcases hblank with ((rfl | rfl) | rfl) | rfl <;> decide
  obtain ⟨b, bs, hbytes⟩ : ∃ b bs, top.rest = b :: bs := by
    refine List.exists_cons_of_ne_nil ?_
    rw [h.rest, hbehind]
    simp
  generalize hlength : (Text.bytes name).length = len
  have hscan := Lexeme.scanFrom_identifier h.identifier r.closeAnglesOnly r.lineStart
    (hbytes.symm.trans (h.rest.trans (congrArg _ hbehind))) hc
  rw [hlength] at hscan
  obtain ⟨t?, r', hstep, -, -⟩ := hsound.step
  -- the name is the first lexeme, and does nothing by itself
  have hdeal : r.deal ⟨some .identifier, len, len + 1, [], false, .nothing⟩ top below =
      ((r.behind ⟨some .identifier, len, len + 1, [], false, .nothing⟩ top below).readName
        (top.advance len) below top.pos (r.locOf top) name).bind fun x => .ok (some x.1, x.2) := by
    have htaken : Text.ofBytes? (top.rest.take len) = some name := by
      rw [h.rest, ← hlength, List.take_left]
      exact Text.ofBytes?_eq_some_iff.2 rfl
    rw [deal]
    simp only
    rw [htaken]
    rfl
  have hnext := (step_eq_deal h.frames hbytes hreads.missing_eq hscan).symm.trans hstep
  rw [hdeal] at hnext
  obtain ⟨⟨t, r''⟩, hname, heq⟩ := Halt.bind_eq_ok hnext
  cases heq
  -- it is that of a macro, whose arguments are found
  have hactive' : (r.behind ⟨some .identifier, len, len + 1, [], false, .nothing⟩ top below).activeMacro?
      name = some body := by
    rw [← hactive, activeMacro?, activeMacro?, h.frames]
    rfl
  have hrest : (top.advance len).rest = gap ++ openParen :: Text.bytes text := by
    rw [Frame.advance, h.rest, ← hlength]
    exact List.drop_left
  have hmissing : (top.advance len).missing = 0 := by rw [Frame.advance, hreads.missing_eq, Nat.zero_sub]
  rw [readName, hactive'] at hname
  obtain ⟨definition', hdefinition, hname⟩ := Halt.bind_eq_ok hname
  obtain rfl := Option.some.inj (hbody.symm.trans (Halt.require_eq_ok hdefinition))
  simp only at hname
  rw [if_pos htakes, hrest, hmissing, hfound] at hname
  obtain ⟨args, hargs, hexpand⟩ := Halt.bind_eq_ok hname
  obtain ⟨rfl, ⟨new, hframes⟩, hargs', herrors⟩ := expand_eq_ok hexpand
  refine ⟨r'', new, readToken_eq_ok_iff.2 ⟨r, .refl r, hstep⟩, ?_, ?_, ?_⟩
  · rw [hframes]
    show new :: (top.advance len).advance stop :: below = _
    rw [Frame.advance_advance _ _ _ hreads.missing_eq]
  · rw [herrors]
    exact List.append_nil r.errors
  · rw [hargs']
    have hloc : r.endLoc - (top.advance len).remaining = r.locOf top + len := by
      have hle : len ≤ top.remaining := by
        rw [hreads.remaining, h.rest, List.length_append, hlength]
        exact Nat.le_add_right _ _
      rw [locOf, show (top.advance len).remaining = top.remaining - len from Nat.sub_add_eq _ _ _]
      grind
    refine (Halt.forall₂_of_mapM hargs).flip.imp fun arg a harg => ?_
    obtain ⟨argument, hargument, harg⟩ := Halt.bind_eq_ok harg
    cases harg
    exact ⟨rfl, congrArg (· + (a.1 : LinearLoc)) hloc,
      Text.ofBytes?_eq_some_iff.1 (Halt.require_eq_ok hargument)⟩

/-- The use of a macro ends where the tokens of the text behind its opening parenthesis say, and its
arguments are the stretches between the separators among them.  Up to the closing parenthesis the text
must not have faults or a `#`, and each raw literal in it must end with the first quote in it that no
backslash takes with it.  And it must not be so long that it could nest more parentheses than their
level can count. -/
theorem readToken_invocation {name text path : String} {gap : Bytes} {budget close : Nat}
    {commas : List Nat} {result : Tokens} (hsound : r.Sound)
    (h : r.Invokes top below name gap text)
    (hlexed : tokenizeWithin budget plainly path text = .ok result)
    (hsep : separators? 0 result.tokens = some (commas, close))
    (hfaults : ∀ e ∈ result.errors, (close : LinearLoc) < e.loc)
    (hhash : hash ∉ (Text.bytes text).take close)
    (hraw : ∀ t ∈ result.tokens, t.loc < close → ClosedByQuote (Text.bytes t.text))
    (hsmall : close < countRange / 2) :
    ∃ r' new, r.readToken = .ok (⟨r.locOf top, .macroUse, name⟩, r') ∧
      r'.frames = new ::
        top.advance ((Text.bytes name).length + gap.length + 1 + close + 1) :: below ∧
      r'.errors = r.errors ∧
      List.Forall₂ (IsArgument (r.locOf top + ((Text.bytes name).length + gap.length + 1 : Nat))
        (Text.bytes text)) r'.args (stretches 0 commas close) := by
  obtain ⟨tokens, errors, hlexes⟩ := exists_lexes (Text.whole_bytes text) 0 true
  obtain ⟨visited, hread⟩ := hlexes.tokenizeWithin_eq path
  rw [hread budget] at hlexed
  split at hlexed
  next =>
    cases hlexed
    have hfound := hlexes.read_eq hsep hfaults hhash hraw h.blank hsmall
    obtain ⟨r', new, htoken, hframes, herrors, hargs⟩ := h.readToken hsound hfound
    refine ⟨r', new, htoken, ?_, herrors, ?_⟩
    · rw [hframes]
      simp only [Nat.add_assoc]
    · rw [List.forall₂_map_right_iff] at hargs
      refine hargs.imp fun arg s harg => ⟨harg.1, ?_, harg.2.2⟩
      rw [harg.2.1]
      grind
  next => cases hlexed

/-- Arguments with parentheses, a comment, and literals in them. -/
def nestedArguments : String := "f(1, 2), /*,)*/ R\"(,)\" ',')+"

theorem readToken_invocation_nested : ∃ (r r' : Reader) (top new : Frame),
    r.Invokes top [] "M" [32] nestedArguments ∧
    (tokenizeWithin 20 plainly "b.h" nestedArguments).toOption.map
      (fun result => (result.errors, separators? 0 result.tokens)) = some ([], some ([7], 26)) ∧
    r.readToken = .ok (⟨0, .macroUse, "M"⟩, r') ∧ r'.frames = [new, top.advance 30] ∧
    List.Forall₂ (IsArgument 3 (Text.bytes nestedArguments)) r'.args [(0, 7), (8, 26)] := by
  let r := ((new .empty ⟨[⟨"M", "x", true⟩], true⟩).push "a.h" ("M (" ++ nestedArguments)).2
  have hsound : r.Sound := sound_pushed _ _ _
  have hinvokes : r.Invokes (Frame.ofWindow 0 none ⟨"M (" ++ nestedArguments, 0, 31⟩) [] "M" [32]
      nestedArguments := by
    exact ⟨by decide +kernel, ⟨by decide +kernel, by simp [Substitution.isIdentifierChar]⟩,
      by decide +kernel, by decide +kernel, 0, ⟨"M", .literal "x", true, []⟩, by decide +kernel,
      by decide +kernel, rfl⟩
  have hread : (tokenizeWithin 20 plainly "b.h" nestedArguments).toOption.map
      (fun result => ((result.errors, separators? 0 result.tokens),
        result.tokens.all fun t => decide (ClosedByQuote (Text.bytes t.text)))) =
      some (([], some ([7], 26)), true) := by
    decide +kernel
  obtain ⟨result, hlexed, hfacts⟩ := Halt.of_toOption_map hread
  obtain ⟨hcut, hclosed⟩ := Prod.mk.inj hfacts
  obtain ⟨herrors, hsep⟩ := Prod.mk.inj hcut
  obtain ⟨r', new, htoken, hframes, -, hargs⟩ := readToken_invocation hsound hinvokes hlexed hsep
    (by rw [herrors]; exact List.forall_mem_nil _) (by decide +kernel)
    (fun t ht _ => of_decide_eq_true (List.all_eq_true.1 hclosed t ht)) (by decide)
  refine ⟨r, r', _, new, hinvokes, ?_, htoken, hframes, hargs⟩
  rw [hlexed]
  exact congrArg some hcut

/-- A parenthesis that stands behind a quote in a raw literal ends the arguments, though it is no token
of the text. -/
theorem readToken_invocation_rawLiteral :
    (tokenizeWithin 4 plainly "b.h" "R\"(\")\");").toOption.map
      (fun result => (result.errors, separators? 0 result.tokens)) = some ([], some ([], 6)) ∧
    (((new .empty {}).push "a.h" "#define M(x) x\nM(R\"(\")\");").2.readMany 2).toOption.map
      (fun x => (x.1.getLast?, x.2.args)) =
      some (some ⟨15, .macroUse, "M"⟩, [⟨17, .macroArgument, "R\"(\""⟩]) := by
  decide +kernel

end Reader

end CppDecl
