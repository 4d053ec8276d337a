import KhCommon.Auth.Middleware
import KhCommon.Lib.Attempts
import KhCommon.Lib.OrderedDict
import KhCommon.Utilities

/-! `kh_common.backblaze.B2Interface`: what its requests can come to, the account that
they are made with, and `_b2_authorize`, which renews it. The renewal writes the
fields one after the other, so one that fails midway leaves some of them new. -/

namespace KhCommon.Backblaze

open Python Attempts
open Auth (Json)

abbrev Object := List (Str × Json)

structure Headers where
  authorization : Json
  fileName : Str
  contentType : Str
  contentLength : ℕ
  contentSha1 : Str

/-- What is raised; the two errors of B2 have the last response and its status. -/
inductive Fault
  | assertionError
  | attributeError
  | keyError
  | typeError
  | unboundLocalError
  | unicodeEncodeError
  | valueError
  | b2AuthorizationError (response : Option Json) (status : Option ℕ)
  | b2UploadError (response : Option Json) (status : Option ℕ) (uploadUrl : Object)
      (headers : Headers) (filesize : ℕ)

/-- What comes of a request: an exception, be it while the request is put together or after the
status of the response was read; a response that is ok, with a JSON object; or another one. -/
inductive Reply
  | raises (status : Option ℕ)
  | ok (status : ℕ) (content : Object)
  | fails (status : ℕ) (content : Bytes)

def Reply.object : Reply → Option Object
  | .ok _ content => some content
  | _ => none

def getitem (content : Object) (key : String) : Except Fault Json :=
  match content.lookup (literal key) with
  | some value => .ok value
  | none => .error .keyError

def Json.getitem (key : String) : Json → Except Fault Json
  | .dict items => Backblaze.getitem items key
  | _ => .error .typeError

/-! ## The account -/

structure Account where
  apiUrl : Json
  authToken : Json
  bucketId : Json
  downloadUrl : Json

/-- The assignments of `_b2_authorize`, up to the first that raises. -/
def Account.assign (content : Object) (account : Account) : Except Fault Unit × Account :=
  match getitem content "apiUrl" with
  | .error fault => (.error fault, account)
  | .ok apiUrl =>
    let account := { account with apiUrl }
    match getitem content "authorizationToken" with
    | .error fault => (.error fault, account)
    | .ok authToken =>
      let account := { account with authToken }
      match (getitem content "allowed").bind (Json.getitem "bucketId") with
      | .error fault => (.error fault, account)
      | .ok bucketId =>
        let account := { account with bucketId }
        match getitem content "downloadUrl" with
        | .error fault => (.error fault, account)
        | .ok downloadUrl => (.ok (), { account with downloadUrl })

end KhCommon.Backblaze

namespace KhCommon

open Backblaze in
structure B2Interface where
  b2MaxRetries : ℕ := 15
  mimeTypes : OrderedDict Python.Str Python.Str

namespace B2Interface

open Python Attempts Backblaze

def knownTypes : OrderedDict Str Str :=
  (∅ : OrderedDict Str Str).update
    [(literal "jpg", literal "image/jpeg"), (literal "jpeg", literal "image/jpeg"),
      (literal "png", literal "image/png"), (literal "webp", literal "image/webp"),
      (literal "gif", literal "image/gif"), (literal "webm", literal "video/webm"),
      (literal "mp4", literal "video/mp4"), (literal "mov", literal "video/quicktime")]

/-- `__init__`, but for the authorization that it ends with. -/
def init (maxRetries : ℕ) (mimeTypes : OrderedDict Str Str) : B2Interface :=
  ⟨maxRetries, knownTypes.update mimeTypes.items⟩

variable (self : B2Interface)

def authorizeAttempt (replies : ℕ → Reply) (i : ℕ) (_ : Unit) : Attempt Unit Object :=
  match replies i with
  | .raises _ => .again ()
  | .ok _ content => .done content
  | .fails _ _ => .again ()

/-- `_b2_authorize`; an ok response ends its loop, whatever comes of the assignments. When the loop
runs out, the last response, if there is one, is not ok, and the error does not have it. -/
def b2Authorize (replies : ℕ → Reply) (account : Account) : Except Fault Unit × Account :=
  match loop (authorizeAttempt replies) self.b2MaxRetries 0 () with
  | .done content => account.assign content
  | .again _ => (.error (.b2AuthorizationError none none), account)

/-- `_get_mime_from_filename`; `lower` is `str.lower`. -/
def getMimeFromFilename (lower : Str → Str) (filename : Str) : Except Fault Str :=
  let extension := sliceFrom filename (rfind [.ofChar '.'] filename + 1)
  if extension ∈ self.mimeTypes then
    match self.mimeTypes.get? (lower extension) with
    | some contentType => .ok contentType
    | none => .error .keyError
  else .error .valueError

end B2Interface

end KhCommon
