import CircuitDesk.Editor.Words

namespace CircuitDesk.Editor

def commands : List (List Bytes × (Editor → Editor)) := [
  (["ctrl+k"], deleteToEnd),
  (["ctrl+u"], deleteToStart),
  (["backspace", "ctrl+h"], deleteBefore),
  (["delete", "ctrl+d"], deleteUnder),
  (["alt+backspace", "ctrl+w"], deleteWordBefore),
  (["alt+delete", "alt+d"], deleteWordAfter),
  (["enter", "ctrl+m"], splitLine),
  (["end", "ctrl+e"], toEnd),
  (["home", "ctrl+a"], toStart),
  (["right", "ctrl+f"], right),
  (["down", "ctrl+n"], down),
  (["alt+right", "alt+f"], wordRight),
  (["ctrl+v"], id),
  (["left", "ctrl+b"], left),
  (["up", "ctrl+p"], up),
  (["alt+left", "alt+b"], wordLeft),
  (["alt+<", "ctrl+home"], toTextStart),
  (["alt+>", "ctrl+end"], toTextEnd),
  (["alt+l"], lowerWord),
  (["alt+u"], upperWord),
  (["alt+c"], capitalizeWord),
  (["ctrl+t"], transpose)]

def command? (name : Bytes) : Option (Editor → Editor) :=
  (commands.find? fun (names, _) => names.any (· = name)).map Prod.snd

end CircuitDesk.Editor
