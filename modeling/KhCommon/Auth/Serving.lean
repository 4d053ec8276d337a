import KhCommon.Auth.Soundness

/-! Calls of `verifyToken` that overlap. A call gives way at two places, where it awaits
the key service and where it awaits the lookup of the record, which was begun before;
both caches are shared with the calls that run meanwhile. `turn` is one step of the
event loop. A call whose steps no other call comes between is `verifyToken` as it is
in `Token`. -/

namespace KhCommon.Auth

open Python Machine Caching

variable {PublicKey Data : Type}

/-- One call of `verifyToken`: its token, and the readings and services it finds. -/
abbrev Visit (PublicKey Data : Type) := Call (Env PublicKey Data × Str)

namespace Visit

def env (visit : Visit PublicKey Data) : Env PublicKey Data := visit.args.1

def token (visit : Visit PublicKey Data) : Str := visit.args.2

end Visit

abbrev Held (PublicKey Data : Type) := TokenCache Data × KeyCache PublicKey

def visitStep (caches : Held PublicKey Data) (visit : Visit PublicKey Data) :
    Except Exc (AuthToken Data) × Held PublicKey Data :=
  verifyToken visit.env caches ⟨visit.token, visit.now, visit.stored⟩

/-- What `v1token` has read when it awaits the key: the content, the signature and the load. -/
abbrev Reading := Str × Str × Load

def Reading.key (reading : Reading) : ℕ × Str := (reading.2.2.keyId, reading.2.2.algorithm)

/-- Both caches, with the calls that await the body behind them, and the calls that have their key
and await their record. -/
structure Serving (PublicKey Data : Type) where
  tokens : Shared Str Str (AuthToken Data)
  keys : Shared Reading (ℕ × Str) PublicKey
  checking : ℕ → Option Reading

def resting : Serving PublicKey Data := ⟨idle, idle, fun _ => none⟩

/-- A call begins, goes on with the response of the key service, or goes on with its record. -/
inductive Turn
  | begins (call : ℕ)
  | fetched (call : ℕ)
  | looked (call : ℕ)

namespace Turn

def call : Turn → ℕ
  | .begins call => call
  | .fetched call => call
  | .looked call => call

variable (calls : ℕ → Visit PublicKey Data)

/-- The first reading of the clock in the turn. -/
def opens : Turn → ℚ
  | .begins call => (calls call).now
  | .fetched call => (calls call).env.fetched
  | .looked call => (calls call).stored

/-- The last reading of the clock in the turn. -/
def closes : Turn → ℚ
  | .begins call => (calls call).env.cleared
  | .fetched call => (calls call).env.stored
  | .looked call => (calls call).stored

end Turn

/-- `checkToken` from the lookup on. -/
def recordToken (env : Env PublicKey Data) (token : Str) (load : Load) :
    Except Exc (AuthToken Data) := do
  checkRecord env load
  let data ← env.loads load.data
  return ⟨load.userId, load.expires, load.guid, data, token⟩

namespace Serving

variable (calls : ℕ → Visit PublicKey Data) (s : Serving PublicKey Data) (call : ℕ)

def finish (result : Except Exc (AuthToken Data)) :
    Option (Except Exc (AuthToken Data)) × Serving PublicKey Data :=
  let tokens := (asyncWrapper id tokenTTL s.tokens (.complete call (calls call).stored result)).2
  (some result, { s with tokens })

/-- `v1token` has its key, or what was raised instead: up to the await of the record. -/
def validated (reading : Reading) (publicKey : Except Exc PublicKey) :
    Option (Except Exc (AuthToken Data)) × Serving PublicKey Data :=
  match publicKey.bind fun publicKey =>
    validate (calls call).env publicKey reading.1 reading.2.1 with
  | .ok () => (none, { s with checking := Function.update s.checking call (some reading) })
  | .error e => finish calls s call (.error e)

def opened : Option (Except Exc (AuthToken Data)) × Serving PublicKey Data :=
  match readToken (calls call).env (calls call).token with
  | .error e => finish calls s call (.error e)
  | .ok reading =>
    match asyncWrapper Reading.key keyTTL s.keys
      (.start call reading (calls call).env.cleared : Event Reading Exc PublicKey) with
    | (.cached publicKey, keys) => validated calls { s with keys } call reading (.ok publicKey)
    | (_, keys) => (none, { s with keys })

def entered : Option (Except Exc (AuthToken Data)) × Serving PublicKey Data :=
  match version (calls call).token with
  | .error e => finish calls s call (.error e)
  | .ok [49] => opened calls s call
  | .ok _ => finish calls s call
    (.error (.invalidToken "The given token uses a version that is unable to be decoded."))

/-- One step of the event loop, with what the call that took it returns, if it returns. -/
def turn : Turn → Option (Except Exc (AuthToken Data)) × Serving PublicKey Data
  | .begins call =>
    match asyncWrapper id tokenTTL s.tokens
      (.start call (calls call).token (calls call).now : Event Str Exc (AuthToken Data)) with
    | (.cached auth, tokens) => (some (.ok auth), { s with tokens })
    | (.awaits, tokens) => entered calls { s with tokens } call
    | (_, tokens) => (none, { s with tokens })
  | .fetched call =>
    match s.keys.awaiting call with
    | none => (none, s)
    | some reading =>
      let publicKey := fetchPublicKeyBody (calls call).env reading.key.1 reading.key.2
      let keys := (asyncWrapper Reading.key keyTTL s.keys
        (.complete call (calls call).env.stored publicKey)).2
      validated calls { s with keys } call reading publicKey
  | .looked call =>
    match s.checking call with
    | none => (none, s)
    | some reading =>
      finish calls { s with checking := Function.update s.checking call none } call
        (recordToken (calls call).env (calls call).token reading.2.2)

/-! ## One call alone -/

section Alone

variable {calls s call}

theorem fetched_idle (noKey : s.keys.awaiting call = none) :
    turn calls s (.fetched call) = (none, s) := by
  rw [turn, noKey]

theorem looked_idle (noRecord : s.checking call = none) :
    turn calls s (.looked call) = (none, s) := by
  rw [turn, noRecord]

/-- The call goes on with `turns`, returns `result` once in them and leaves the caches `held`. -/
structure Ends (calls : ℕ → Visit PublicKey Data)
    (first : Option (Except Exc (AuthToken Data)) × Serving PublicKey Data) (turns : List Turn)
    (result : Except Exc (AuthToken Data)) (held : Held PublicKey Data) : Prop where
  once : first.1.toList ++ (outputs (turn calls) first.2 turns).filterMap id = [result]
  tokens : (run (turn calls) first.2 turns).tokens.cache = held.1
  keys : (run (turn calls) first.2 turns).keys.cache = held.2

def kept (calls : ℕ → Visit PublicKey Data) (s : Serving PublicKey Data) (call : ℕ)
    (result : Except Exc (AuthToken Data)) : TokenCache Data :=
  keep s.tokens.cache (calls call).token ((calls call).stored + tokenTTL) result

variable {first : Option (Except Exc (AuthToken Data)) × Serving PublicKey Data}
  {result : Except Exc (AuthToken Data)} {held : Held PublicKey Data}

theorem Ends.skip_fetched (h : Ends calls first [.looked call] result held)
    (noKey : first.2.keys.awaiting call = none) :
    Ends calls first [.fetched call, .looked call] result held := by
  have idle : turn calls first.2 (.fetched call) = (none, first.2) := fetched_idle noKey
  exact ⟨by simpa [outputs, idle] using h.once, by simpa [idle] using h.tokens,
    by simpa [idle] using h.keys⟩

theorem finish_eq (awaits : s.tokens.awaiting call = some (calls call).token)
    (result : Except Exc (AuthToken Data)) :
    finish calls s call result =
      (some result, { s with tokens := ⟨kept calls s call result,
        Function.update s.tokens.awaiting call none⟩ }) := by
  rw [finish, asyncWrapper_complete awaits]
  rfl

theorem finish_ends (awaits : s.tokens.awaiting call = some (calls call).token)
    (noRecord : s.checking call = none) (result : Except Exc (AuthToken Data)) :
    Ends calls (finish calls s call result) [.looked call] result
      (kept calls s call result, s.keys.cache) := by
  rw [finish_eq awaits]
  constructor <;> simp [outputs, looked_idle, noRecord]

theorem validated_ends (awaits : s.tokens.awaiting call = some (calls call).token)
    (noRecord : s.checking call = none) (reading : Reading) (publicKey : Except Exc PublicKey) :
    let result := publicKey.bind
      (checkToken (calls call).env (calls call).token reading.1 reading.2.1 reading.2.2)
    Ends calls (validated calls s call reading publicKey) [.looked call] result
      (kept calls s call result, s.keys.cache) := by
  intro result
  have split : result = (publicKey.bind fun publicKey =>
      validate (calls call).env publicKey reading.1 reading.2.1).bind fun _ =>
        recordToken (calls call).env (calls call).token reading.2.2 := by
    cases publicKey <;> rfl
  unfold validated
  cases valid : publicKey.bind fun publicKey =>
      validate (calls call).env publicKey reading.1 reading.2.1 with
  | error e =>
    rw [valid] at split
    rw [split]
    exact finish_ends awaits noRecord _
  | ok =>
    rw [valid] at split
    rw [split]
    constructor <;> simp [outputs, turn, Except.bind, finish_eq, awaits, kept]

theorem Ends.next {t : Turn} {turns : List Turn}
    (h : Ends calls (turn calls s t) turns result held) :
    Ends calls (none, s) (t :: turns) result held :=
  ⟨by cases hout : (turn calls s t).1 <;> simpa [outputs, hout] using h.once, h.tokens, h.keys⟩

theorem validated_keys (reading : Reading) (publicKey : Except Exc PublicKey) :
    (validated calls s call reading publicKey).2.keys = s.keys := by
  unfold validated
  split <;> rfl

theorem opened_ends (awaits : s.tokens.awaiting call = some (calls call).token)
    (noKey : s.keys.awaiting call = none) (noRecord : s.checking call = none) :
    let body := v1token (calls call).env s.keys.cache (calls call).token
    Ends calls (opened calls s call) [.fetched call, .looked call] body.1
      (kept calls s call body.1, body.2) := by
  unfold opened v1token
  cases readToken (calls call).env (calls call).token with
  | error e => exact (finish_ends awaits noRecord _).skip_fetched noKey
  | ok reading =>
    obtain ⟨content, signature, load⟩ := reading
    unfold fetchPublicKey
    dsimp only
    cases hit : (clearCache (calls call).env.cleared s.keys.cache).get?
        (load.keyId, load.algorithm) with
    | some entry =>
      rw [asyncWrapper_hit noKey hit, wrapper_hit _ hit]
      refine (validated_ends ?_ ?_ _ _).skip_fetched ?_
      · exact awaits
      · exact noRecord
      · rwa [validated_keys]
    | none =>
      rw [asyncWrapper_miss noKey hit, wrapper_miss _ hit]
      refine Ends.next ?_
      simp only [turn, Function.update_self]
      rw [asyncWrapper_complete (Function.update_self ..)]
      refine validated_ends ?_ ?_ _ _
      · exact awaits
      · exact noRecord

theorem entered_ends (awaits : s.tokens.awaiting call = some (calls call).token)
    (noKey : s.keys.awaiting call = none) (noRecord : s.checking call = none) :
    let body := verifyTokenBody (calls call).env s.keys.cache (calls call).token
    Ends calls (entered calls s call) [.fetched call, .looked call] body.1
      (kept calls s call body.1, body.2) := by
  unfold entered verifyTokenBody
  cases version (calls call).token with
  | error e => exact (finish_ends awaits noRecord _).skip_fetched noKey
  | ok number =>
    by_cases one : number = [49]
    · subst one
      exact opened_ends awaits noKey noRecord
    · have other := (finish_ends awaits noRecord
        (.error (.invalidToken "The given token uses a version that is unable to be decoded."))
        ).skip_fetched noKey
      simpa using other

/-- A call that no other comes between is `verifyToken` as one function: it returns once, with the
same answer, and leaves the same caches. -/
theorem turn_alone (free : s.tokens.awaiting call = none) (noKey : s.keys.awaiting call = none)
    (noRecord : s.checking call = none) :
    let turns := [Turn.begins call, .fetched call, .looked call]
    let answer := visitStep (s.tokens.cache, s.keys.cache) (calls call)
    (outputs (turn calls) s turns).filterMap id = [answer.1] ∧
      (run (turn calls) s turns).tokens.cache = answer.2.1 ∧
      (run (turn calls) s turns).keys.cache = answer.2.2 := by
  intro turns answer
  have ends : Ends calls (turn calls s (.begins call)) [.fetched call, .looked call] answer.1
      answer.2 := by
    rw [turn]
    cases hit : (clearCache (calls call).now s.tokens.cache).get? (id (calls call).token) with
    | some entry =>
      unfold answer visitStep verifyToken
      rw [wrapper_hit _ hit, asyncWrapper_hit free hit]
      constructor <;> simp [outputs, fetched_idle, looked_idle, noKey, noRecord]
    | none =>
      unfold answer visitStep verifyToken
      rw [wrapper_miss _ hit, asyncWrapper_miss free hit]
      refine entered_ends ?_ ?_ ?_
      · exact Function.update_self ..
      · exact noKey
      · exact noRecord
  exact ⟨ends.next.once, ends.tokens, ends.keys⟩

end Alone

end Serving

end KhCommon.Auth
