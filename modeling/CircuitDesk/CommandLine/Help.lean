import CircuitDesk.CommandLine.Command

namespace CircuitDesk.CommandLine

namespace Command

def summary : Command → Bytes
  | overview => "Quipper ASCII circuit toolkit"
  | parse => "Print the parse tree or semantic model of a file"
  | format => "Print a file in canonical form"
  | check => "Parse files in parallel and report the result of each"
  | stats => "Count the gates of a circuit"
  | draw => "Draw the wire diagram of a circuit"
  | view => "Open a file in the interactive viewer"
  | help => "Help about any command"
  | completion => "Generate the autocompletion script for the specified shell"
  | script s => Bytes.ofString "Generate the autocompletion script for " ++ s.name
  | suggest _ => "Request shell completion choices for the specified command-line"

def scriptDescription : Shell → Bytes
  | .bash => Bytes.unlines [
      "Generate the autocompletion script for the bash shell.",
      "",
      "This script depends on the 'bash-completion' package.",
      "If it is not installed already, you can install it via your OS's package manager.",
      "",
      "To load completions in your current shell session:",
      "",
      "\tsource <(quipdeck completion bash)",
      "",
      "To load completions for every new session, execute once:",
      "",
      "#### Linux:",
      "",
      "\tquipdeck completion bash > /etc/bash_completion.d/quipdeck",
      "",
      "#### macOS:",
      "",
      "\tquipdeck completion bash > $(brew --prefix)/etc/bash_completion.d/quipdeck",
      "",
      "You will need to start a new shell for this setup to take effect."]
  | .fish => Bytes.unlines [
      "Generate the autocompletion script for the fish shell.",
      "",
      "To load completions in your current shell session:",
      "",
      "\tquipdeck completion fish | source",
      "",
      "To load completions for every new session, execute once:",
      "",
      "\tquipdeck completion fish > ~/.config/fish/completions/quipdeck.fish",
      "",
      "You will need to start a new shell for this setup to take effect."]
  | .powershell => Bytes.unlines [
      "Generate the autocompletion script for powershell.",
      "",
      "To load completions in your current shell session:",
      "",
      "\tquipdeck completion powershell | Out-String | Invoke-Expression",
      "",
      "To load completions for every new session, add the output of the above command",
      "to your powershell profile."]
  | .zsh => Bytes.unlines [
      "Generate the autocompletion script for the zsh shell.",
      "",
      "If shell completion is not already enabled in your environment you will need",
      "to enable it.  You can execute the following once:",
      "",
      "\techo \"autoload -U compinit; compinit\" >> ~/.zshrc",
      "",
      "To load completions in your current shell session:",
      "",
      "\tsource <(quipdeck completion zsh)",
      "",
      "To load completions for every new session, execute once:",
      "",
      "#### Linux:",
      "",
      "\tquipdeck completion zsh > \"$\x7bfpath[1]\x7d/_quipdeck\"",
      "",
      "#### macOS:",
      "",
      "\tquipdeck completion zsh > $(brew --prefix)/share/zsh/site-functions/_quipdeck",
      "",
      "You will need to start a new shell for this setup to take effect."]

def description : Command → Bytes
  | overview => Bytes.unlines [
      "quipdeck reads circuits in the Quipper ASCII format.",
      "",
      "It can print the parse tree or semantic model of a file, rewrite it in",
      "canonical form, check many files in parallel, count gates, draw wire",
      "diagrams and open an interactive viewer."]
  | parse => Bytes.unlines [
      "Parse a Quipper ASCII file.",
      "",
      "By default the semantic model is printed as JSON. With --tree the concrete",
      "parse tree is printed as an s-expression instead. --rule parses the file as",
      "a single grammar rule, such as \"gate\" or \"arity\"."]
  | check => Bytes.unlines [
      "Parse every file on the command line in parallel.",
      "",
      "Each file gets its own timeout and a failing file never stops the others.",
      "A table lists the outcome per file; the command fails when any file does."]
  | view => Bytes.unlines [
      "Open a file in the interactive viewer.",
      "",
      "The source is re-parsed on every edit and the diagram of the selected",
      "circuit follows it. A missing file starts an empty buffer that ctrl+s",
      "creates."]
  | help => Bytes.unlines [
      "Help provides help for any command in the application.",
      "Simply type quipdeck help [path to command] for full details."]
  | completion => Bytes.unlines [
      "Generate the autocompletion script for quipdeck for the specified shell.",
      "See each sub-command's help for details on how to use the generated script."]
  | script s => scriptDescription s
  | c => c.summary

def callForm : Command → Bytes
  | check => "quipdeck check FILE... [flags]"
  | help => "quipdeck help [command] [flags]"
  | overview => "quipdeck [flags]"
  | script .bash => fullName (script .bash)
  | script s => fullName (script s) ++ " [flags]"
  | c => c.fullName ++ " FILE [flags]"

end Command

def Flag.signature (f : Flag) : Bytes :=
  let letter := match f.letter with
    | some l => Bytes.ofString "  -" ++ [l] ++ ", --"
    | none => Bytes.ofString "      --"
  letter ++ f.name ++ (if f.type.word = [] then [] else Bytes.ofString " " ++ f.type.word)

def aligned (gap : Nat) (rows : List (Bytes × Bytes)) : List Bytes :=
  let width := (rows.map (·.1.length)).foldl max 0
  rows.map fun (left, right) => left ++ Bytes.spaces (width + gap - left.length) ++ right

def byName (fs : List Flag) : List Flag := fs.mergeSort fun f g => decide (f.name ≤ g.name)

def Flag.purpose (f : Flag) : Bytes :=
  if f.initial = [] then f.usage else f.usage ++ " (default " ++ Bytes.quoted f.initial ++ ")"

def flagLines (fs : List Flag) : List Bytes := aligned 3 ((byName fs).map fun f => (f.signature, f.purpose))

def commandLines (entries : List (Bytes × Bytes)) : List Bytes :=
  aligned 2 (entries.map fun (name, summary) => (Bytes.ofString "  " ++ name, summary))

def listedCommands : List (Bytes × Bytes) :=
  (Command.worded.map fun c => (c.name, c.summary)).mergeSort fun a b => decide (a.1 ≤ b.1)

def listedShells : List (Bytes × Bytes) := Shell.all.map fun s => (s.name, (Command.script s).summary)

def Command.usageWith (c : Command) (own : List Flag) : Bytes :=
  let sections : List (List Bytes) :=
    match c with
    | .overview => [
        ["Usage:", "  quipdeck [flags]", "  quipdeck [command]"],
        Bytes.ofString "Available Commands:" :: commandLines listedCommands,
        Bytes.ofString "Flags:" :: flagLines (own ++ sharedFlags),
        ["Use \"quipdeck [command] --help\" for more information about a command."]]
    | .completion => [
        ["Usage:", "  quipdeck completion [command]"],
        Bytes.ofString "Available Commands:" :: commandLines listedShells,
        Bytes.ofString "Flags:" :: flagLines own,
        Bytes.ofString "Global Flags:" :: flagLines sharedFlags,
        ["Use \"quipdeck completion [command] --help\" for more information about a command."]]
    | _ => [
        ["Usage:", Bytes.ofString "  " ++ c.callForm],
        Bytes.ofString "Flags:" :: flagLines own,
        Bytes.ofString "Global Flags:" :: flagLines sharedFlags]
  Bytes.join [Bytes.newline, Bytes.newline] (sections.map Bytes.unlines) ++ [Bytes.newline]

def Command.usage (c : Command) : Bytes := c.usageWith (c.helpFlag :: c.ownFlags)

def Command.helpText (c : Command) : Bytes :=
  c.description ++ [Bytes.newline, Bytes.newline] ++ c.usage

end CircuitDesk.CommandLine
