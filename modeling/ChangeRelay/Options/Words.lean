import ChangeRelay.Options.Setting

namespace ChangeRelay.Options

structure Level where
  command : Option String
  settings : List Setting
  commands : List String

/-- The settings read so far, and the last one with its value if that was seen but not checked yet.
-/
structure Reading where
  given : List (Setting × Setting.Value)
  pending : Option (Setting × Option String)

namespace Reading

def empty : Reading := ⟨[], none⟩

def add (r : Reading) (s : Setting) (t : String) : Except Refusal Reading :=
  if (r.given.lookup s).isSome then .error .argumentConflict
  else do return { r with given := r.given ++ [(s, ← readValue s t)] }

def settle (r : Reading) : Except Refusal Reading :=
  match r.pending with
  | none => .ok r
  | some (_, none) => .error .invalidValue
  | some (s, some t) => add { r with pending := none } s t

def isOpen (r : Reading) : Bool :=
  match r.pending with
  | some (_, none) => true
  | _ => false

def begin (r : Reading) (s : Setting) (attached : Option String) : Except Refusal Reading := do
  let r ← r.settle
  match attached with
  | some t => r.add s t
  | none => return { r with pending := some (s, none) }

end Reading

namespace Level

def stray (l : Level) (word : String) (afterHyphens : Bool) : Refusal :=
  if l.commands.isEmpty || (afterHyphens && l.commands.contains word) then .unknownArgument
  else .invalidSubcommand

def long (l : Level) (r : Reading) (name : List Char) : Except Refusal Reading :=
  let key := String.ofList (name.takeWhile (· ≠ '='))
  let attached := match name.dropWhile (· ≠ '=') with
    | [] => none
    | _ :: t => some (String.ofList t)
  if key = "help" then
    if attached.isSome then .error .tooManyValues
    else r.settle.bind fun _ ↦ .error (.displayHelp l.command)
  else
    match l.settings.find? fun s ↦ s.long = key with
    | some s => r.begin s attached
    | none => .error .unknownArgument

/-- A word of one hyphen and a letter; what follows the letter is its value, with or without an
equals sign. -/
def short (l : Level) (r : Reading) (letter : Char) (rest : List Char) : Except Refusal Reading :=
  if letter = 'h' then r.settle.bind fun _ ↦ .error (.displayHelp l.command)
  else
    match l.settings.find? fun s ↦ s.short? = some letter with
    | none => .error .unknownArgument
    | some s =>
      match rest with
      | [] => r.begin s none
      | '=' :: t => r.begin s (some (String.ofList t))
      | t => r.begin s (some (String.ofList t))

/-- Reads words up to the end, or up to the name of a command, which is returned with the words
after it. -/
def read (l : Level) (r : Reading) :
    List String → Except Refusal (Reading × Option (String × List String))
  | [] => .ok (r, none)
  | w :: ws =>
    if !r.isOpen && l.commands.contains w then .ok (r, some (w, ws))
    else
      match w.toList with
      | ['-', '-'] =>
        match ws with
        | [] => .ok (r, none)
        | w' :: _ => .error (l.stray w' true)
      | '-' :: '-' :: name => (l.long r name).bind fun r ↦ l.read r ws
      | '-' :: c :: rest => (l.short r c rest).bind fun r ↦ l.read r ws
      | _ =>
        match r.pending with
        | some (s, none) => l.read { r with pending := some (s, some w) } ws
        | _ => .error (l.stray w false)

def fromEnvironment (l : Level) (env : List (String × String)) (r : Reading) :
    Except Refusal (List (Setting × Setting.Value)) :=
  (l.settings.filter fun s ↦ (r.given.lookup s).isNone).foldlM (fun acc s ↦
    match env.lookup s.environmentName with
    | some t => do return acc ++ [(s, ← readValue s t)]
    | none => .ok acc) []

end Level

end ChangeRelay.Options
