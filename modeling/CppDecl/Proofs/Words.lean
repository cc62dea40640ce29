import CppDecl.Proofs.Asides
import CppDecl.Proofs.Printing
import CppDecl.Proofs.Upcoming

/-!
# Words on a line

Where a parse is followed on given words, the words are printed on a line with a space between any
two of them, as `joined` does, and a session is given the text.  A word is *single* if the reader
takes it as one token when a space follows.  `Session.upcoming_joined` says that single words come
next, one token each, in a session that is about to read their text, and that nothing is reported on
the way.
-/

namespace CppDecl

open Byte (isBlank)

/-- A word, as a token that stands at no place in particular. -/
def Token.word (kind : TokenKind) (text : String) : Token := ⟨0, kind, text⟩

/-- What a token is, wherever it stands. -/
def Token.spelling (t : Token) : TokenKind × String := (t.kind, t.text)

/-- A word is read as one token in front of a space, and it is no aside. -/
structure Token.Single (t : Token) : Prop where
  /-- It is taken without faults. -/
  taken : ∃ b xs, Text.bytes t.text = b :: xs ∧
    (Lexeme.scanFrom false false 0 b (xs ++ [Byte.space])).Takes t.kind (xs.length + 1)
  /-- It is shown to the grammar. -/
  plain : t.kind.isAside = false

variable {base : Nat} {lineStart : Bool} {bs : Bytes} {tokens words : List Token}
  {errors : List LexError}

/-- Single words that are printed are read as they are. -/
theorem lexes_joined (hsingle : ∀ w ∈ words, w.Single) (base : Nat) (lineStart : Bool) :
    (∀ b ∈ (Text.bytes (joined words)).head?, isBlank b = false) ∧
      ∃ tokens, Lexes base lineStart (Text.bytes (joined words)) tokens [] ∧
        tokens.map Token.spelling = words.map Token.spelling := by
  induction words generalizing base lineStart with
  | nil => exact ⟨by simp [joined, Text.bytes_eq_flatMap], [], .done, rfl⟩
  | cons w words ih =>
    obtain ⟨⟨b, xs, htext, htakes⟩, hplain⟩ := hsingle w List.mem_cons_self
    have hdirective : w.kind ≠ .directive := fun h => by rw [h] at hplain; cases hplain
    -- it is enough to know what is printed behind it
    suffices hprint : ∃ zs, Text.bytes (joined (w :: words)) = b :: (xs ++ zs) ∧
        Parted [Byte.space] zs ∧ ∀ base lineStart, ∃ tokens, Lexes base lineStart zs tokens [] ∧
          tokens.map Token.spelling = words.map Token.spelling by
      obtain ⟨zs, hbytes, hparted, htokens⟩ := hprint
      obtain ⟨hblank, htakes'⟩ := Lexeme.scanFrom_printed htakes hdirective hparted lineStart
      obtain ⟨tokens, hlexes, hsame⟩ := htokens (base + (xs.length + 1))
        (Lexeme.scanFrom false lineStart 0 b (xs ++ zs)).lineStart
      rw [hbytes]
      refine ⟨by simpa using hblank, _, hlexes.taken htakes' htext, ?_⟩
      rw [List.map_cons, List.map_cons, hsame]
      rfl
    cases words with
    | nil =>
      refine ⟨[], ?_, ⟨by simp, by simp⟩, fun _ _ => ⟨[], .done, rfl⟩⟩
      rw [joined, List.map_singleton, String.intercalate_singleton, htext, List.append_nil]
    | cons v words =>
      refine ⟨Byte.space :: Text.bytes (joined (v :: words)), ?_, ⟨?_, by simp⟩, ?_⟩
      · rw [joined_cons (List.cons_ne_nil _ _), htext, List.cons_append]
      · rintro c ⟨⟩
        rfl
      · intro base lineStart
        obtain ⟨hblank, tokens, hlexes, hsame⟩ :=
          ih (fun u hu => hsingle u (List.mem_cons_of_mem _ hu)) (base + 1) lineStart
        exact ⟨tokens, hlexes.behind_space hblank, hsame⟩

/-! ## Reading without macros -/

namespace Reader

variable {r r' : Reader}

/-- What a step does with a lexeme that is no directive. -/
theorem Bare.step_behind {b : UInt8} {scan : Scan} (h : r.Bare base lineStart (b :: bs))
    (hscan : Lexeme.scanFrom false lineStart 0 b bs = scan) (hkind : scan.kind? ≠ some .directive) :
    ∃ top t?, r.frames = [top] ∧ r.step = .ok (t?, r.behind scan top []) ∧
      t?.map Token.kind = scan.kind? ∧
      ∀ t ∈ t?, t.loc = base ∧ Text.bytes t.text = (b :: bs).take scan.len := by
  have hnothing : scan.effect = .nothing := by
    have hfits := Lexeme.fits_scanFrom false lineStart b bs
    rw [hscan] at hfits
    exact hfits.passive hkind
  obtain ⟨top, t?, _, hframes, hstep, rfl, hsame⟩ := h.step_of_perform hscan
    (P := fun top r' => r' = r.behind scan top []) (fun _ => rfl) fun top text =>
      ⟨r.behind scan top [], by rw [hnothing]; rfl, h.macros_eq, rfl⟩
  exact ⟨top, t?, hframes, hstep, hsame⟩

/-- The reader is bare again behind a lexeme that is no directive. -/
theorem Bare.step {b : UInt8} {scan : Scan} (h : r.Bare base lineStart (b :: bs))
    (hscan : Lexeme.scanFrom false lineStart 0 b bs = scan) (hkind : scan.kind? ≠ some .directive) :
    ∃ t? r', r.step = .ok (t?, r') ∧
      r'.Bare (base + scan.len) scan.lineStart ((b :: bs).drop scan.len) ∧
      r'.errors = r.errors ++ scan.faults.map (Fault.locate base) ∧
      t?.map Token.kind = scan.kind? ∧
      ∀ t ∈ t?, t.loc = base ∧ Text.bytes t.text = (b :: bs).take scan.len := by
  obtain ⟨top, t?, hframes, hstep, hsame⟩ := h.step_behind hscan hkind
  obtain ⟨hbehind, herrors⟩ := h.behind hscan hframes
  exact ⟨t?, _, hstep, hbehind, herrors, hsame⟩

theorem Gives.of_readToken_eq {q : Reader} {t : Token} {n : Nat} (h : q.Gives n t r')
    (heq : r.readToken = q.readToken) : r.Gives n t r' := by
  cases h with
  | ended hread hend => exact .ended (heq.trans hread) hend
  | plain hread hmore hplain => exact .plain (heq.trans hread) hmore hplain
  | aside hread haside hrest => exact .aside (heq.trans hread) haside hrest

theorem Delivers.of_readToken_eq {q : Reader} {n : Nat} (h : q.Delivers n tokens r')
    (heq : r.readToken = q.readToken) : ∃ r'', r.Delivers n tokens r'' := by
  cases h with
  | nil _ => exact ⟨r, .nil r⟩
  | cons hgives hrest => exact ⟨_, .cons (hgives.of_readToken_eq heq) hrest⟩

/-- Tokens that are no asides are delivered, and the faults beside them are all there are. -/
theorem Bare.delivers (h : r.Bare base lineStart bs) (hlexes : Lexes base lineStart bs tokens errors)
    (hplain : ∀ t ∈ tokens, t.kind.isAside = false) :
    ∃ r', r.Delivers tokens.length tokens r' ∧ r.Forwards [] (r.errors ++ errors) := by
  induction hlexes generalizing r with
  | done =>
    have hforwards := (forwards_of_frames_nil (r := r.leave []) rfl).of_step h.sound h.step_nil
    rw [List.append_nil]
    exact ⟨r, .nil r, hforwards⟩
  | @skip base lineStart b bs scan tokens errors hscan hkind _ ih =>
    obtain ⟨t?, r₁, hstep, hbare, herrors, hnone, -⟩ := h.step hscan (by simp [hkind])
    obtain rfl : t? = none := by simpa [hkind] using hnone
    obtain ⟨r', hdelivers, hforwards⟩ := ih hbare hplain
    rw [herrors, List.append_assoc] at hforwards
    obtain ⟨q, hq⟩ := hdelivers.of_readToken_eq (readToken_of_step hstep)
    exact ⟨q, hq, hforwards.of_step h.sound hstep⟩
  | @token base lineStart b bs scan kind text tokens errors hscan hkind htext _ ih =>
    obtain ⟨hfirst, hothers⟩ := List.forall_mem_cons.1 hplain
    have hdirective : scan.kind? ≠ some .directive := by
      rintro hdirective
      rw [hkind] at hdirective
      cases hdirective
      cases hfirst
    obtain ⟨t?, r₁, hstep, hbare, herrors, hsome, ht⟩ := h.step hscan hdirective
    obtain rfl := Token.eq_some (hsome.trans hkind) ht htext
    obtain ⟨r', hdelivers, hforwards⟩ := ih hbare hothers
    have hread : r.readToken = .ok (⟨base, kind, text⟩, r₁) :=
      readToken_eq_ok_iff.2 ⟨r, .refl r, hstep⟩
    refine ⟨r', ?_, ?_⟩
    · rw [List.length_cons, Nat.add_comm]
      exact .cons (.plain hread (lexical_of_scanFrom hscan hkind).1 hfirst) hdelivers
    · rw [herrors, List.append_assoc] at hforwards
      have hall := hforwards.of_readToken h.sound hread
      rwa [asides, List.filter_cons_of_neg (by simp [hfirst])] at hall

/-- A reader at the start of a text. -/
theorem bare_pushed (path source : String) :
    ((new .empty {}).push path source).2.Bare 0 true (Text.bytes source) := by
  refine ⟨sound_pushed {} path source, ⟨_, rfl, ?_, ?_⟩, rfl, rfl, rfl⟩
  · exact Window.bytes_whole source
  · simp [push_eq, locOf, Frame.ofWindow, Frame.remaining, Reader.enter, nextLoc, new]

end Reader

/-- Where single words are to be read, they come next as tokens, and no faults with them. -/
theorem Session.upcoming_joined (hsingle : ∀ w ∈ words, w.Single) (path : String)
    {budget : Nat} (hbudget : words.length ≤ budget) (passNumber : Nat) :
    let reader := ((Reader.new .empty {}).push path (joined words)).2
    ∃ tokens, tokens.map Token.spelling = words.map Token.spelling ∧
      (Session.new reader budget passNumber).Upcoming tokens ∧ reader.Forwards [] [] := by
  obtain ⟨-, tokens, hlexes, hsame⟩ := lexes_joined hsingle 0 true
  have hplain : ∀ t ∈ tokens, t.kind.isAside = false := by
    intro t ht
    have hmem : t.spelling ∈ words.map Token.spelling := hsame ▸ List.mem_map_of_mem ht
    obtain ⟨w, hw, hspelling⟩ := List.mem_map.1 hmem
    have hkind : w.kind = t.kind := congrArg Prod.fst hspelling
    exact hkind ▸ (hsingle w hw).plain
  obtain ⟨r', hdelivers, hforwards⟩ := (Reader.bare_pushed path (joined words)).delivers hlexes hplain
  have hlength := congrArg List.length hsame
  rw [List.length_map, List.length_map] at hlength
  exact ⟨tokens, hsame, ⟨_, tokens, r', rfl, hdelivers, by rw [hlength]; exact hbudget⟩, hforwards⟩

end CppDecl
