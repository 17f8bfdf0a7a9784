import StrataShell.Content.Address
import StrataShell.Disk

/-!
# Providers of Deferred Contents

A provider answers a request for a path with a status and a body, or fails to
answer. It is an arbitrary function: the shell relies on nothing but its
answers. `fetchText` turns an answer into text, and every status outside the
two hundreds into an error.

`directory` is the provider that reads below a content root. A path that is
not allowed is answered without touching the disk, and a missing file is an
answer with a status; only the other failures of the disk are failures of the
provider.

## Main definitions

* `Response`: A status and a body for a path.
* `Provider`: What each request is answered.
* `FetchError`: Why no text came of a request.
* `fetchText`: The text behind a path.
* `directory`: The provider over the files below a root.
-/

namespace StrataShell

namespace Content

/-- The answer to a request. -/
structure Response where
  /-- The status, by which success is told. -/
  status : Nat
  path : String
  body : String := ""
  deriving DecidableEq

/-- Whether an answer reports success: a status from 200 to 299. -/
def Response.isSuccess (r : Response) : Bool :=
  200 ≤ r.status && r.status < 300

/-- What each request is answered: a response, or the words for a failure. -/
abbrev Provider := String → Except String Response

/-- Why no text came of a request. -/
inductive FetchError
  /-- The answer did not report success. -/
  | status (code : Nat)
  /-- There was no answer. -/
  | transport (message : String)
  /-- There is no provider to ask. -/
  | unavailable
  deriving DecidableEq

/-- What the user is told when no text came of a request. -/
def FetchError.message : FetchError → String
  | .status code => "Error fetching file: " ++ toString code
  | .transport message => "Error fetching file: " ++ message
  | .unavailable => "Error fetching file: no content provider configured"

/-- The text of an answer. -/
def textOf : Except String Response → Except FetchError String
  | .error message => .error (.transport message)
  | .ok response =>
    if response.isSuccess then .ok response.body else .error (.status response.status)

/-- The text behind a path, asked of a provider if there is one. -/
def fetchText (provider : Option Provider) (path : String) : Except FetchError String :=
  match provider with
  | none => .error .unavailable
  | some ask => textOf (ask path)

/-- The status of a path that may not be asked for. -/
def forbidden : Nat := 403

/-- The status of a path without a file. -/
def notFound : Nat := 404

/-- The answer that reading the file at `place` gives to a request for
    `path`. -/
def responseOfRead (place path : String) : Except ReadError String → Except String Response
  | .ok body => .ok { status := 200, path := path, body := body }
  | .error .notFound => .ok { status := notFound, path := path }
  | .error cause => .error (place ++ ": " ++ cause.message)

/-- The provider over the files below a root. -/
def directory (disk : Disk) (root : String) : Provider := fun path =>
  match contentPath root path with
  | none => .ok { status := forbidden, path := path }
  | some place => responseOfRead place path (disk place)

end Content

end StrataShell
