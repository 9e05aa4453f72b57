import ChangeRelay.Options.Basic

namespace ChangeRelay

def Setting.default? : Setting → Option String
  | socket | database => none
  | requestTimeout => some "5000"
  | host => some "localhost"
  | port => some "8082"
  | pollInterval => some "2000"
  | queueCapacity => some "256"
  | writeTimeout => some "10000"
  | maxConnections => some "64"
  | url => some "ws://localhost:8082/ws"
  | reconnectDelay => some "5000"
  | fallbackInterval => some "30000"

namespace Options.Help

def purpose : Option String → String
  | none => "Live mutation relay for beads viewers"
  | some "serve" => "Relay daemon mutations to WebSocket clients"
  | some "watch" => "Follow the relay and print a refreshed summary on every change"
  | some _ => "Print this message or the help of the given subcommand(s)"

def valueName (s : Setting) : String :=
  String.ofList (s.long.toList.map fun c ↦ if c = '-' then '_' else c.toUpper)

def settingLines (env : List (String × String)) (s : Setting) : List String :=
  let short := match s.short? with
    | some c => "  -" ++ String.singleton c ++ ", "
    | none => "      "
  let default := match s.default? with
    | some d => " [default: " ++ d ++ "]"
    | none => ""
  let shown := s.environmentName ++ "=" ++ (env.lookup s.environmentName).getD ""
  [short ++ "--" ++ s.long ++ " <" ++ valueName s ++ ">",
    "          " ++ s.purpose ++ " [env: " ++ shown ++ "]" ++ default]

def optionLines (env : List (String × String)) (ss : List Setting) : List String :=
  "" :: "Options:" :: ss.flatMap (settingLines env) ++ ["  -h, --help", "          Print help"]

def commandLine (c : String) : String :=
  "  " ++ String.ofList (c.toList.rightpad 5 ' ') ++ "  " ++ purpose (some c)

def lines (env : List (String × String)) (command : Option String) : List String :=
  let usage := match command with
    | none => "[OPTIONS] <COMMAND>"
    | some "help" => "help [COMMAND]..."
    | some c => c ++ " [OPTIONS]"
  [purpose command, "", "Usage: beadcast " ++ usage] ++
    match command with
    | none => "" :: "Commands:" :: root.commands.map commandLine ++ optionLines env root.settings
    | some "help" => ["", "Arguments:", "  [COMMAND]...  Print help for the subcommand(s)"]
    | some c => optionLines env (after c).settings

end Options.Help

end ChangeRelay
