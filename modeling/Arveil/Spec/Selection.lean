import Arveil.Spec.Store

/-! Which conversation a command acts on (`select_conversation`): the only one, or the one
whose id in hex starts with a given text. -/

namespace Arveil.Client

def toAsciiLowercase (s : String) : String := String.ofList (s.toList.map Char.toLower)

def startsWith (s p : String) : Bool := p.toList.isPrefixOf s.toList

/-- A choice is refused with a text. The text shows six bytes of each id, and on a shorter
id its slice panics. -/
inductive NotSelected where
  | refused (e : CliError)
  | panicked
deriving DecidableEq, Repr

def describe (list : List Conversation) : Option String :=
  if list.any (fun c => c.groupId.length < 6) then none
  else some (", ".intercalate (list.map fun c => hexOf (c.groupId.take 6)))

def refusedWith (text : String → String) (list : List Conversation) : NotSelected :=
  match describe list with
  | some ids => .refused (.domain (text ids))
  | none => .panicked

def selectConversation (s : Store) (pre : Option String) : Except NotSelected Conversation :=
  let all := conversations s
  if all.isEmpty then .error (.refused (.domain "no conversation; run `chat start` or `chat sync` first"))
  else match pre with
  | none =>
      match all with
      | [c] => .ok c
      | _ => .error (refusedWith
          (fun ids => toString all.length ++ " conversations here; choose one with --group <prefix>: " ++ ids) all)
  | some p =>
      let p := toAsciiLowercase (trim p)
      match all.filter fun c => startsWith (hexOf c.groupId) p with
      | [c] => .ok c
      | [] => .error (.refused (.domain ("no conversation starts with " ++ p)))
      | found => .error (refusedWith (fun ids => p ++ " matches " ++ toString found.length ++ " conversations: " ++ ids) found)

end Arveil.Client
