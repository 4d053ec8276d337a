import KhCommon.Lib.Python

/-! The authority of a URL: user information and an `@`, the host, a colon and a port,
where all but the host may be missing. A host is a name, or an address in brackets.
The pieces carry what makes the text readable again, so `hostOf` gives the host back
of every authority that is written down. -/

namespace Authority

open Python Split

def colon : CodePoint := .ofChar ':'

def atSign : CodePoint := .ofChar '@'

def opening : CodePoint := .ofChar '['

def closing : CodePoint := .ofChar ']'

def withoutPort (hostPort : Str) : Str :=
  if hostPort.head? = some opening then
    match first closing hostPort with
    | some (address, _) => address ++ [closing]
    | none => hostPort
  else
    match first colon hostPort with
    | some (name, _) => name
    | none => hostPort

/-- The host of an authority: behind the last `@`, and before the port. -/
def hostOf (authority : Str) : Str :=
  match last atSign authority with
  | some (_, hostPort) => withoutPort hostPort
  | none => withoutPort authority

inductive Host
  | name (text : Str) (plain : colon ∉ text ∧ atSign ∉ text ∧ text.head? ≠ some opening)
  | address (text : Str) (plain : closing ∉ text ∧ atSign ∉ text)

def Host.text : Host → Str
  | name text _ => text
  | address text _ => opening :: text ++ [closing]

structure Parts where
  userInfo : Option Str
  host : Host
  port : Option Str
  plain : ∀ text ∈ port, atSign ∉ text

def portText (port : Option Str) : Str := port.elim [] (colon :: ·)

def Parts.text (parts : Parts) : Str :=
  parts.userInfo.elim [] (· ++ [atSign]) ++ (parts.host.text ++ portText parts.port)

theorem Host.atSign_not_mem (h : Host) : atSign ∉ h.text := by
  cases h with
  | name text plain => exact plain.2.1
  | address text plain =>
    have opens : atSign ≠ opening := by decide
    have closes : atSign ≠ closing := by decide
    simp [Host.text, plain.2, opens, closes]

theorem atSign_not_mem_portText {port : Option Str} (plain : ∀ text ∈ port, atSign ∉ text) :
    atSign ∉ portText port := by
  cases port with
  | none => simp [portText]
  | some text =>
    have other : atSign ≠ colon := by decide
    simpa [portText, other] using plain text rfl

theorem withoutPort_name {name : Str} (plain : colon ∉ name) (start : name.head? ≠ some opening)
    (port : Option Str) : withoutPort (name ++ portText port) = name := by
  have head : (name ++ portText port).head? ≠ some opening := by
    cases name with
    | nil =>
      have other : colon ≠ opening := by decide
      cases port <;> simp [portText, other]
    | cons c name => exact start
  rw [withoutPort, if_neg head]
  cases port with
  | none =>
    rw [portText, Option.elim_none, List.append_nil, first_eq_none_iff.mpr plain]
  | some text =>
    rw [portText, Option.elim_some, first_eq_some_iff.mpr ⟨rfl, plain⟩]

theorem withoutPort_address {address : Str} (plain : closing ∉ address) (port : Option Str) :
    withoutPort (opening :: address ++ [closing] ++ portText port) =
      opening :: address ++ [closing] := by
  have opens : closing ≠ opening := by decide
  have split : first closing (opening :: address ++ [closing] ++ portText port) =
      some (opening :: address, portText port) :=
    first_eq_some_iff.mpr ⟨by simp, by simp [plain, opens]⟩
  have head : (opening :: address ++ [closing] ++ portText port).head? = some opening := rfl
  rw [withoutPort, if_pos head, split]

theorem withoutPort_text (h : Host) (port : Option Str) :
    withoutPort (h.text ++ portText port) = h.text := by
  cases h with
  | name text plain => exact withoutPort_name plain.1 plain.2.2 port
  | address text plain => exact withoutPort_address plain.1 port

theorem hostOf_of_not_mem {authority : Str} (h : atSign ∉ authority) :
    hostOf authority = withoutPort authority := by
  have none : last atSign authority = none := by
    rw [last, Option.map_eq_none_iff, first_eq_none_iff, List.mem_reverse]
    exact h
  rw [hostOf, none]

theorem hostOf_text (parts : Parts) : hostOf parts.text = parts.host.text := by
  have solid : atSign ∉ parts.host.text ++ portText parts.port := by
    rw [List.mem_append, not_or]
    exact ⟨parts.host.atSign_not_mem, atSign_not_mem_portText parts.plain⟩
  rw [Parts.text]
  cases parts.userInfo with
  | none =>
    rw [Option.elim_none, List.nil_append, hostOf_of_not_mem solid, withoutPort_text]
  | some userInfo =>
    have split : last atSign (userInfo ++ [atSign] ++ (parts.host.text ++ portText parts.port)) =
        some (userInfo, parts.host.text ++ portText parts.port) :=
      last_eq_some_iff.mpr ⟨by simp, solid⟩
    rw [Option.elim_some, hostOf, split]
    exact withoutPort_text parts.host parts.port

theorem hostOf_eq_headD {authority : Str} (noUser : atSign ∉ authority)
    (start : authority.head? ≠ some opening) :
    hostOf authority = (authority.splitOn colon).headD [] := by
  rw [hostOf_of_not_mem noUser, withoutPort, if_neg start]
  cases split : first colon authority with
  | none => rw [splitOn_of_not_mem (first_eq_none_iff.mp split), List.headD_cons]
  | some pieces =>
    obtain ⟨name, port⟩ := pieces
    obtain ⟨rfl, plain⟩ := first_eq_some_iff.mp split
    rw [splitOn_append_cons plain, List.headD_cons]

end Authority
