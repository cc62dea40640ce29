import CppDecl.Builtins

/-!
# Commands

What can be asked for on the command line, and how the words of a command line come to it.

There are three verbs: `parse` with files, `tokens` with a file and `suite` with a folder.  The
verb comes first, apart from the switch `-v`, which may stand anywhere any number of times and
only asks for a log.  After the verb come its operands and options in any order.

* A long option is `--name`, with a value `--name=value` or `--name value`.
* Short options are single letters after a dash.  Letters of switches can be run together.  A
  letter that takes a value takes the rest of the word, without an equals sign in front of it, or
  the next word.
* A word that begins with a dash is never the next word of an option.  A dash by itself is an
  ordinary word.
* After `--` all words are operands.
* A switch other than `-v` stands at most once.

Words are read from the left, and the first fault ends the reading, as does a request for help.
What concerns the command as a whole is looked at after all words are read: that the operands are
there, and that not both forms of the tree are asked for.
-/

namespace CppDecl

/-! ## What can be asked for -/

/-- The form in which parsing shows the tree. -/
inductive TreeForm where
  /-- Not at all. -/
  | hidden
  /-- As an indented outline. -/
  | outline
  /-- As data. -/
  | data
  deriving Repr, DecidableEq

/-- What is asked for. -/
inductive Command where
  /-- Parse files one after the other. -/
  | parse (files : List String) (form : TreeForm) (predefined : List Predefined)
  /-- Show the tokens of a file. -/
  | tokens (file : String) (predefined : List Predefined)
  /-- Run the snapshot cases of a folder. -/
  | suite (folder : String) (bless : Bool)
  deriving Repr, DecidableEq

/-- Why the words of a command line come to no command. -/
inductive Refusal where
  /-- They are not a command line. -/
  | misuse
  /-- They ask for help. -/
  | help
  /-- They ask for the version. -/
  | version
  deriving Repr, DecidableEq

/-! ## Verbs and options -/

/-- What the first word says. -/
inductive Verb where
  /-- Parse files. -/
  | parse
  /-- Show tokens. -/
  | tokens
  /-- Run snapshot cases. -/
  | suite
  deriving Repr, DecidableEq

/-- Options without a value. -/
inductive Switch where
  /-- Show the tree as an outline. -/
  | dump
  /-- Show the tree as data. -/
  | json
  /-- Start from the built-in macros. -/
  | builtins
  /-- Log macro expansion. -/
  | debug
  /-- Write the expected diagnostics. -/
  | bless
  /-- Log more. -/
  | verbose
  /-- Show help. -/
  | help
  /-- Show the version. -/
  | version
  deriving Repr, DecidableEq

/-- Options with a value, which define a macro. -/
inductive Definer where
  /-- One that stands by itself. -/
  | plain
  /-- One that takes arguments and drops them. -/
  | withArgs
  deriving Repr, DecidableEq

/-- An option. -/
inductive Flag where
  /-- Without a value. -/
  | switch (s : Switch)
  /-- With a value. -/
  | definer (d : Definer)
  deriving Repr, DecidableEq

namespace Verb

/-- The word for a verb. -/
def word : Verb → String
  | .parse => "parse"
  | .tokens => "tokens"
  | .suite => "suite"

/-- The verb for a word. -/
def ofWord? (w : String) : Option Verb := [parse, tokens, suite].find? fun v => v.word == w

/-- Whether a verb takes more than one operand. -/
def takesMany : Verb → Bool
  | .parse => true
  | .tokens => false
  | .suite => false

end Verb

namespace Flag

/-- The long name of an option. -/
def name : Flag → String
  | .switch .dump => "dump"
  | .switch .json => "json"
  | .switch .builtins => "builtins"
  | .switch .debug => "debug-pp"
  | .switch .bless => "bless"
  | .switch .verbose => "verbose"
  | .switch .help => "help"
  | .switch .version => "version"
  | .definer .plain => "define"
  | .definer .withArgs => "define-fn"

/-- The letter of an option, if it has one. -/
def letter? : Flag → Option Char
  | .switch .verbose => some 'v'
  | .switch .help => some 'h'
  | .switch .version => some 'V'
  | .definer .plain => some 'D'
  | .definer .withArgs => some 'F'
  | .switch _ => none

/-- The options that go with macros. -/
def forMacros : List Flag :=
  [.definer .plain, .definer .withArgs, .switch .builtins, .switch .debug]

/-- The options in front of the verb, or those after it. -/
def known : Option Verb → List Flag
  | none => [.switch .verbose, .switch .help, .switch .version]
  | some .parse => [.switch .verbose, .switch .help, .switch .dump, .switch .json] ++ forMacros
  | some .tokens => [.switch .verbose, .switch .help] ++ forMacros
  | some .suite => [.switch .verbose, .switch .help, .switch .bless]

end Flag

/-! ## Reading words -/

/-- What the words so far come to. -/
structure Draft where
  /-- An option whose value is the next word. -/
  awaiting : Option Definer := none
  /-- Whether only operands follow. -/
  onlyOperands : Bool := false
  /-- The operands. -/
  operands : List String := []
  /-- The switches that can stand once. -/
  switches : List Switch := []
  /-- The definitions. -/
  definitions : List (Definer × String) := []
  deriving Repr, DecidableEq

namespace Draft

/-- No word but a value may follow an option that awaits one. -/
def settled (d : Draft) : Except Refusal Draft :=
  if d.awaiting.isSome then .error .misuse else .ok d

/-- The draft with one more operand, which cannot be empty. -/
def operand (verb : Verb) (d : Draft) (w : String) : Except Refusal Draft := do
  let d ← d.settled
  if w.isEmpty || (!verb.takesMany && !d.operands.isEmpty) then
    .error .misuse
  else
    .ok { d with operands := d.operands ++ [w] }

/-- The draft with one more switch. -/
def switch (d : Draft) (s : Switch) : Except Refusal Draft := do
  let d ← d.settled
  match s with
  | .help => .error .help
  | .version => .error .version
  | .verbose => .ok d
  | s =>
    if d.switches.contains s then .error .misuse else .ok { d with switches := d.switches ++ [s] }

/-- The draft with one more definition, or with one whose value is to come. -/
def define (d : Draft) (kind : Definer) (value? : Option String) : Except Refusal Draft := do
  let d ← d.settled
  match value? with
  | some value => .ok { d with definitions := d.definitions ++ [(kind, value)] }
  | none => .ok { d with awaiting := some kind }

/-- The draft after a long option. -/
def long (known : List Flag) (d : Draft) (name : String) (value? : Option String) :
    Except Refusal Draft :=
  match known.find? fun f => f.name == name, value? with
  | some (.switch s), none => d.switch s
  | some (.switch _), some _ => .error .misuse
  | some (.definer kind), value? => d.define kind value?
  | none, _ => .error .misuse

/-- The value that follows a letter in the same word. -/
def attached? : List Char → Option String
  | [] => none
  | '=' :: cs => some (String.ofList cs)
  | cs => some (String.ofList cs)

/-- The draft after the letters of short options. -/
def letters (known : List Flag) : (d : Draft) → List Char → Except Refusal Draft
  | d, [] => .ok d
  | d, c :: cs =>
    match known.find? fun f => f.letter? == some c with
    | some (.switch s) => do letters known (← d.switch s) cs
    | some (.definer kind) => d.define kind (attached? cs)
    | none => .error .misuse

/-- A name and the value after the first equals sign, if there is one. -/
def assignment (cs : List Char) : String × Option String :=
  match cs.span fun c => c != '=' with
  | (name, _ :: value) => (String.ofList name, some (String.ofList value))
  | (name, []) => (String.ofList name, none)

/-- The draft after a word that begins with a dash and more, or `none` for other words. -/
def option? (known : List Flag) (d : Draft) (w : String) : Option (Except Refusal Draft) :=
  match w.toList with
  | '-' :: '-' :: cs =>
    let (name, value?) := assignment cs
    some (d.long known name value?)
  | '-' :: c :: cs => some (d.letters known (c :: cs))
  | _ => none

/-- The draft after one more word. -/
def word (verb : Verb) (d : Draft) (w : String) : Except Refusal Draft :=
  if d.onlyOperands then
    d.operand verb w
  else if w = "--" then do
    return { ← d.settled with onlyOperands := true }
  else
    match d.option? (Flag.known (some verb)) w, d.awaiting with
    | some next, _ => next
    | none, some kind => { d with awaiting := none }.define kind (some w)
    | none, none => d.operand verb w

/-- The macros to start with: the built-in ones if they are asked for, those without arguments,
and those with. -/
def predefined (d : Draft) : List Predefined :=
  let defined (kind : Definer) : List Predefined :=
    (d.definitions.filter fun (k, _) => k == kind).map fun (_, text) =>
      let (name, value?) := assignment text.toList
      ⟨name, value?.getD "", kind == .withArgs⟩
  (if d.switches.contains .builtins then Builtins.definitions else []) ++
    defined .plain ++ defined .withArgs

/-- The command that a complete draft comes to. -/
def command (verb : Verb) (d : Draft) : Except Refusal Command := do
  let d ← d.settled
  match verb, d.operands with
  | _, [] => .error .misuse
  | .parse, files =>
    match d.switches.contains .dump, d.switches.contains .json with
    | true, true => .error .misuse
    | true, false => .ok (.parse files .outline d.predefined)
    | false, true => .ok (.parse files .data d.predefined)
    | false, false => .ok (.parse files .hidden d.predefined)
  | .tokens, file :: _ => .ok (.tokens file d.predefined)
  | .suite, folder :: _ => .ok (.suite folder (d.switches.contains .bless))

end Draft

namespace Command

/-- What words after `help` come to.  They may name a verb. -/
def ofHelpWords : List String → Refusal
  | [] => .help
  | [w] => if w = "help" || (Verb.ofWord? w).isSome then .help else .misuse
  | _ => .misuse

/-- The command that the words of a command line come to. -/
def ofWords : List String → Except Refusal Command
  | [] => .error .misuse
  | w :: ws =>
    match Verb.ofWord? w with
    | some verb => do (← ws.foldlM (Draft.word verb) {}).command verb
    | none =>
      if w = "help" then
        .error (ofHelpWords ws)
      else
        match Draft.option? (Flag.known none) {} w with
        | some lead => do
          let _ ← lead
          ofWords ws
        | none => .error .misuse

end Command

end CppDecl
