import CppDecl.Proofs.Shift.Session

/-!
# Calls at another place

A rule is shifted with what it is given.  Calls *shift* if a call of the shifted rule does from the
shifted session what the call of the rule does, with the result shifted.  For each action of the
grammar it is shown that it shifts if calls do, beginning with those that skip over brackets.
-/

namespace CppDecl

/-- What has been read of a declaration, at a place that is further along. -/
def SpecifierState.shift (k : LinearLoc) (s : SpecifierState) : SpecifierState :=
  { s with simple := s.simple.shift k }

namespace Rule

/-- The rule, given what it is given at a place that is further along. -/
def shift (k : LinearLoc) {α : Type} : Rule α → Rule α
  | .skipTo opener closer => .skipTo (opener.shift k) closer
  | .nameTail => .nameTail
  | .literals last => .literals (last.shift k)
  | .expressions opener last => .expressions opener (last.shift k)
  | .expression optional => .expression optional
  | .nestedNames soFar => .nestedNames (soFar.map (NestedName.shift k))
  | .templateArguments soFar => .templateArguments (soFar.map (TemplateArgument.shift k))
  | .templateSeparator start argument => .templateSeparator (start.shift k) (argument.shift k)
  | .parameters forTemplate soFar => .parameters forTemplate (soFar.shift k)
  | .functionQualifiers soFar => .functionQualifiers (soFar.map (Token.shift k))
  | .conversionSpecifiers soFar hasType =>
    .conversionSpecifiers (soFar.map (Specifier.shift k)) hasType
  | .conversionPointers soFar allowQualifier =>
    .conversionPointers (soFar.map (Production.shift k)) allowQualifier
  | .declarator outer form allowQualifier =>
    .declarator (outer.map (Production.shift k)) form allowQualifier
  | .suffixes soFar depth nameMissing => .suffixes (soFar.shift k) depth nameMissing
  | .memberInitializers soFar => .memberInitializers (soFar.map (MemberInitializer.shift k))
  | .initDeclarators soFar => .initDeclarators (soFar.shift k)
  | .bases soFar => .bases (soFar.map (BaseSpecifier.shift k))
  | .virtSpecifiers soFar => .virtSpecifiers (soFar.map (Token.shift k))
  | .enumerators soFar => .enumerators (soFar.map (Enumerator.shift k))
  | .specifiers mode soFar => .specifiers mode (soFar.shift k)
  | .declaration className => .declaration className
  | .declarations closeExpected className => .declarations closeExpected className

/-- What a rule results in, at a place that is further along. -/
def shiftResult (k : LinearLoc) {α : Type} : Rule α → α → α
  | .skipTo _ _ => Option.map (Token.shift k)
  | .nameTail => id
  | .literals _ => Token.shift k
  | .expressions _ _ => Token.shift k
  | .expression _ => Prod.map (Token.shift k) (Token.shift k)
  | .nestedNames _ => List.map (NestedName.shift k)
  | .templateArguments _ => Prod.map (List.map (TemplateArgument.shift k)) (Token.shift k)
  | .templateSeparator _ _ => Prod.map (TemplateArgument.shift k) (Token.shift k)
  | .parameters _ _ => ParameterList.shift k
  | .functionQualifiers _ => List.map (Token.shift k)
  | .conversionSpecifiers _ _ => List.map (Specifier.shift k)
  | .conversionPointers _ _ => List.map (Production.shift k)
  | .declarator _ _ _ => Declarator.shift k
  | .suffixes _ _ _ => Declarator.shift k
  | .memberInitializers _ => List.map (MemberInitializer.shift k)
  | .initDeclarators _ => SimpleDeclaration.shift k
  | .bases _ => List.map (BaseSpecifier.shift k)
  | .virtSpecifiers _ => Prod.map (List.map (Token.shift k)) (Token.shift k)
  | .enumerators _ => Prod.map (List.map (Enumerator.shift k)) (Token.shift k)
  | .specifiers _ _ => SimpleDeclaration.shift k
  | .declaration _ => id
  | .declarations _ _ => Token.shift k

/-- What is known of the result of a rule: the token behind the words after the name of a class has
been read. -/
def Ensures {α : Type} : Rule α → α → Prop
  | .virtSpecifiers _ => fun result => result.2.isPresent = true
  | _ => Parse.Any

attribute [simp] shift shiftResult

end Rule

@[simp] theorem SpecifierState.shift_simple (k : LinearLoc) (s : SpecifierState) :
    (s.shift k).simple = s.simple.shift k := rfl

/-- Calls of shifted rules do what calls of the rules do. -/
def Call.Shifts (k : LinearLoc) (call : Call) : Prop :=
  ∀ {α : Type} (rule : Rule α),
    Parse.Shifts k (rule.shiftResult k) rule.Ensures (call rule) (call (rule.shift k))

variable {k : LinearLoc} {call : Call}

namespace Grammar

open Parse

/-! ## Skipping -/

theorem skipScope_shifts (h : call.Shifts k) (opener : Token) :
    Shifts k (Option.map (Token.shift k)) Any (skipScope call opener)
      (skipScope call (opener.shift k)) := by
  unfold skipScope
  rw [Token.shift_kind]
  split
  · exact .pure trivial rfl
  next closer _ => exact inside_shifts _ (h (.skipTo opener closer))

theorem skipNested_shifts (h : call.Shifts k) (token : Token) :
    Shifts k (Option.map (Token.shift k)) Any (skipNested call token)
      (skipNested call (token.shift k)) := by
  unfold skipNested
  rw [Token.shift_kind]
  split
  · exact .bind .get fun _ _ => .ite (fun _ => skipScope_shifts h token) fun _ => .pure trivial rfl
  · exact skipScope_shifts h token
  · exact skipScope_shifts h token
  · exact skipScope_shifts h token
  · exact .pure trivial rfl

theorem skipTo_shifts (h : call.Shifts k) (opener : Token) (closer : TokenKind) :
    Shifts k (Option.map (Token.shift k)) Any (skipTo call opener closer)
      (skipTo call (opener.shift k) closer) := by
  refine read_shifts.bind fun token ht => .ite (fun _ => .pure trivial rfl) fun _ => ?_
  refine (mayStay_shifts ht).bind fun _ _ => .ite (fun _ => ?_) fun _ => ?_
  · exact (fault_shifts true (.unclosed token opener)).bind fun _ _ => .pure trivial rfl
  · exact (skipNested_shifts h token).bind fun _ _ => h (.skipTo opener closer)

theorem stepOver_shifts (h : call.Shifts k) {token : Token} (ht : token.isPresent = true) :
    Shifts k (Option.map (Token.shift k)) Any (stepOver call token)
      (stepOver call (token.shift k)) := by
  refine (mayStay_shifts ht).bind fun _ _ => .ite (fun _ => .pure trivial rfl) fun _ => ?_
  refine (skipNested_shifts h token).bind fun closer _ => .pure trivial ?_
  cases closer <;> rfl

theorem closeScope_shifts (h : call.Shifts k) (opener : Token) :
    Shifts k (Option.map (Token.shift k)) Any (closeScope call opener)
      (closeScope call (opener.shift k)) := by
  refine read_shifts.bind fun token ht => .ite (fun _ => .pure trivial rfl) fun _ => ?_
  refine (faultExpected_shifts _ token).bind fun _ _ => (pushBack_shifts ht).bind fun _ _ => ?_
  refine (skipScope_shifts h opener).bind ?_
  rintro (_ | closer) _
  · exact .pure trivial rfl
  · exact unmute_shifts.bind fun _ _ => .pure trivial rfl

/-- A token that makes no sense is left to a rule further out, or the list goes on behind it. -/
theorem stepOver_bind_shifts {α : Type} {m : α → α} {E : α → Prop} (h : call.Shifts k)
    {token : Token} (ht : token.isPresent = true) {p q : Parse α} {f g : Token → Parse α}
    (hp : Shifts k m E p q) (hf : ∀ last, Shifts k m E (f last) (g (last.shift k))) :
    Shifts k m E (do match ← stepOver call token with | none => p | some last => f last)
      (do match ← stepOver call (token.shift k) with | none => q | some last => g last) := by
  refine (stepOver_shifts h ht).bind ?_
  rintro (_ | last) _
  · exact hp
  · exact hf last

end Grammar

end CppDecl
