import RustyCore.Lib.Occurrence
import RustyCore.Protocol.Tools

/-! The `fs.edit` tool: a whole file is replaced, or the one place at which a text is found. -/

namespace RustyCore.Edit

structure Workspace where
  read : String → Except String String
  write : String → String → Except String Unit

structure EditInput where
  path : String
  content : Option String := none
  oldText : Option String := none
  newText : Option String := none

inductive EditMode where
  | wholeFile (content : String)
  | findReplace (oldText newText : String)

def resolveMode (input : EditInput) : Except String EditMode :=
  match input.content, input.oldText, input.newText with
  | some content, none, none => .ok (.wholeFile content)
  | none, some oldText, some newText => .ok (.findReplace oldText newText)
  | none, none, none =>
    let tick := String.singleton (Char.ofNat 96)
    .error ("one of " ++ tick ++ "content" ++ tick ++ " or (" ++ tick ++ "old_text" ++ tick ++ " and " ++ tick ++
      "new_text" ++ tick ++ ") is required")
  | some _, some _, _ | some _, _, some _ =>
    let tick := String.singleton (Char.ofNat 96)
    .error (tick ++ "content" ++ tick ++ " is mutually exclusive with " ++ tick ++ "old_text" ++ tick ++ "/" ++ tick ++
      "new_text" ++ tick)
  | none, some _, none =>
    let tick := String.singleton (Char.ofNat 96)
    .error (tick ++ "old_text" ++ tick ++ " requires " ++ tick ++ "new_text" ++ tick)
  | none, none, some _ =>
    let tick := String.singleton (Char.ofNat 96)
    .error (tick ++ "new_text" ++ tick ++ " requires " ++ tick ++ "old_text" ++ tick)

structure ToolResult where
  callId : String
  output : Value
  isError : Bool

def failure (message : String) : ToolResult := ⟨"fs.edit", .object [("error", .string message)], true⟩

structure Done where
  written : Option (String × String) := none
  result : Except ToolError ToolResult

def writeFile (workspace : Workspace) (path content : String) : Done where
  written := some (path, content)
  result :=
    match workspace.write path content with
    | .ok () =>
      .ok ⟨"fs.edit", .object [("message", .string ("Successfully wrote " ++ path ++ " (" ++
        toString content.utf8ByteSize ++ " bytes)"))], false⟩
    | .error e => .ok (failure e)

def replaceOnce (current oldText newText : String) : Except String String :=
  match Text.matchCount oldText.toList current.toList with
  | 0 => .error "old_text not found in the current file content"
  | 1 => .ok (String.ofList (Text.replaceFirst oldText.toList newText.toList current.toList))
  | n =>
    .error ("old_text is ambiguous: matched " ++ toString n ++
      " locations, provide more surrounding context to make it unique")

def execute (workspace : Workspace) (input : Option EditInput) (cancelled : Bool) : Done :=
  match input with
  | none => { result := .error .executionFailed }
  | some input =>
    if cancelled then { result := .error .timeout }
    else
      match resolveMode input with
      | .error message => { result := .ok (failure message) }
      | .ok (.wholeFile content) => writeFile workspace input.path content
      | .ok (.findReplace oldText newText) =>
        match workspace.read input.path with
        | .error e => { result := .ok (failure e) }
        | .ok current =>
          match replaceOnce current oldText newText with
          | .error message => { result := .ok (failure message) }
          | .ok content => writeFile workspace input.path content

end RustyCore.Edit
