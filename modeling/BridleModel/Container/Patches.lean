import BridleModel.Container.Candidate
import BridleModel.Outbox.Batch

-- The patches of a candidate: what they do to the files, and how they are handed to `commit_many`
namespace Container

def ChangeType.text : ChangeType → String
  | add    => "add"
  | remove => "remove"
  | modify => "modify"
  | rename => "rename"

namespace Patch

variable (p : Patch)

-- The paths that the patch changes
def touches : List String :=
  p.path :: p.oldPath.toList

-- The files by their digests; a rename moves what is there.
def apply (files : String → Option String) : String → Option String :=
  match p.changeType, p.oldPath with
  | .remove, _        => Function.update files p.path none
  | .rename, some old => Function.update (Function.update files old none) p.path (files old)
  | _, _              => Function.update files p.path p.candidateHash

-- The entry of `changes` with the content of the candidate's file
def change (newText : Option String) (token messageId now : String) : Outbox.BatchChange where
  changeType := p.changeType.text
  path       := p.path
  oldPath    := p.oldPath.getD ""
  newText
  token
  messageId
  now

end Patch
end Container
