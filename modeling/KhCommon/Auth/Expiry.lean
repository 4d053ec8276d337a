import KhCommon.Auth.Followed
import Mathlib.Data.List.Induction

/-! How old an accepted credential can be. The dates of a token and of its key are
compared with the clock on a cache miss only, so a call answered from a cache rests
on comparisons of an earlier call. What holds over a run of calls is a chain: the
call was answered at most 30 seconds after the call that checked the token stored
it, and that call used a key that had been stored at most 24 hours before. Calls that
overlap can store over each other's results, and add to both bounds the time that
such a call took. -/

namespace KhCommon.Auth

open Python Machine Caching

variable {PublicKey Data : Type}

open Serving

/-- A call, or a fetch of a key, that stores over the result of another does so at most `late`
after it began. -/
def Prompt (calls : ℕ → Visit PublicKey Data) (late : ℚ) (s : Serving PublicKey Data) (t : Turn)
    (answer : Option (Except Exc (AuthToken Data))) : Prop :=
  match t with
  | .begins _ => True
  | .fetched call => ∀ reading publicKey, s.keys.awaiting call = some reading →
    fetchPublicKeyBody (calls call).env reading.key.1 reading.key.2 = .ok publicKey →
    reading.key ∈ s.keys.cache → (calls call).env.stored ≤ (calls call).env.cleared + late
  | .looked call => ∀ auth, answer = some (.ok auth) → (calls call).token ∈ s.tokens.cache →
    (calls call).stored ≤ (calls call).now + late

/-- The call `i` of the schedule returned the token, having checked it. -/
def Checks (calls : ℕ → Visit PublicKey Data) (schedule : List Turn) (i : ℕ)
    (auth : AuthToken Data) : Prop :=
  ∃ before, before ++ [.looked i] <+: schedule ∧
    (turn calls (run (turn calls) resting before) (.looked i)).1 = some (.ok auth)

/-- The call `j` of the schedule asked the key service for the key. -/
def Fetches (calls : ℕ → Visit PublicKey Data) (schedule : List Turn) (j : ℕ) (key : ℕ × Str) :
    Prop :=
  ∃ before, before ++ [.fetched j] <+: schedule ∧
    ∃ reading, (run (turn calls) resting before).keys.awaiting j = some reading ∧
      reading.key = key

/-- The call `i` checked the token, under the key that the call `j` fetched; the dates are those of
the token and of the key. -/
structure Accepted (i j : Visit PublicKey Data) (key : ℕ × Str) (auth : AuthToken Data)
    (tokenExpires keyExpires : ℚ) : Prop where
  date : auth.expires = .aware tokenExpires
  keyDate : ∃ response, j.env.request key.1 key.2 = .ok response ∧
    response.expires = .aware keyExpires
  checked : ∃ content signature bytes fields load publicKey,
    Composed i.token content signature bytes fields ∧ Decodes fields load ∧
      (load.keyId, load.algorithm) = key ∧
      fetchPublicKeyBody j.env key.1 key.2 = .ok publicKey ∧
      Signed i.env publicKey content signature ∧ Returns i.env i.token load auth

/-! ## What the bodies accept -/

theorem fetchPublicKeyBody_eq_ok {env : Env PublicKey Data} {keyId : ℕ} {algorithm : Str}
    {publicKey : PublicKey} (h : fetchPublicKeyBody env keyId algorithm = .ok publicKey) :
    ∃ response instant, env.request keyId algorithm = .ok response ∧
      response.expires = .aware instant ∧ env.fetched ≤ instant := by
  unfold fetchPublicKeyBody at h
  obtain ⟨response, hresponse, h⟩ := bind_eq_ok.mp h
  obtain ⟨past, hpast, h⟩ := bind_eq_ok.mp h
  cases hdate : response.expires with
  | naive wall =>
    rw [hdate] at hpast
    cases hpast
  | aware instant =>
    rw [hdate, Datetime.isPast, Except.ok.injEq] at hpast
    by_cases late : instant < env.fetched
    · rw [← hpast, decide_eq_true late] at h
      cases h
    · exact ⟨response, instant, hresponse, hdate, not_lt.mp late⟩

theorem recordToken_eq_ok {env : Env PublicKey Data} {token : Str} {load : Load}
    {auth : AuthToken Data} (h : recordToken env token load = .ok auth) :
    Returns env token load auth := by
  unfold recordToken at h
  obtain ⟨-, -, h⟩ := bind_eq_ok.mp h
  obtain ⟨data, hdata, h⟩ := bind_eq_ok.mp h
  cases h
  exact ⟨rfl, rfl, rfl, hdata, rfl⟩

/-! ## Runs -/

section Runs

variable {calls : ℕ → Visit PublicKey Data} {late t : ℚ} {seen seen' : List Turn}

def FetchedBy (calls : ℕ → Visit PublicKey Data) (seen : List Turn) (key : ℕ × Str) (c : ℚ)
    (publicKey : PublicKey) : Prop :=
  ∃ j, c = (calls j).env.stored ∧ Fetches calls seen j key ∧
    fetchPublicKeyBody (calls j).env key.1 key.2 = .ok publicKey

/-- A call stored the token at `c`; it found the token current, and the key it used had been
fetched current and stored not too long before. -/
def CheckedBy (calls : ℕ → Visit PublicKey Data) (late : ℚ) (seen : List Turn) (token : Str) (c : ℚ)
    (auth : AuthToken Data) : Prop :=
  ∃ i j key tokenExpires keyExpires, c = (calls i).stored ∧ (calls i).token = token ∧
    Checks calls seen i auth ∧ Fetches calls seen j key ∧
    Accepted (calls i) (calls j) key auth tokenExpires keyExpires ∧
    (calls i).env.now ≤ tokenExpires ∧ (calls j).env.fetched ≤ keyExpires ∧
    (calls i).env.cleared ≤ (calls j).env.stored + keyTTL + late

def Validated (calls : ℕ → Visit PublicKey Data) (late : ℚ) (seen : List Turn) (call : ℕ)
    (reading : Reading) : Prop :=
  readToken (calls call).env (calls call).token = .ok reading ∧
    ∃ publicKey c, FetchedBy calls seen reading.key c publicKey ∧
      (calls call).env.cleared ≤ c + keyTTL + late ∧
      validate (calls call).env publicKey reading.1 reading.2.1 = .ok ()

structure Kept (calls : ℕ → Visit PublicKey Data) (late : ℚ) (seen : List Turn) (t : ℚ)
    (s : Serving PublicKey Data) : Prop where
  followed : Followed calls (CheckedBy calls late seen) (Validated calls late seen) late t s
  keys : Aged (FetchedBy calls seen) Reading.key keyTTL late
    (fun call => (calls call).env.cleared) t s.keys

theorem FetchedBy.mono {key : ℕ × Str} {c : ℚ} {publicKey : PublicKey} (more : seen <+: seen')
    (h : FetchedBy calls seen key c publicKey) : FetchedBy calls seen' key c publicKey := by
  obtain ⟨j, hc, ⟨before, hbefore, asked⟩, fetched⟩ := h
  exact ⟨j, hc, ⟨before, hbefore.trans more, asked⟩, fetched⟩

theorem CheckedBy.mono {token : Str} {c : ℚ} {auth : AuthToken Data} (more : seen <+: seen')
    (h : CheckedBy calls late seen token c auth) : CheckedBy calls late seen' token c auth := by
  obtain ⟨i, j, key, tokenExpires, keyExpires, hc, same, ⟨before, hbefore, returned⟩,
    ⟨before', hbefore', asked⟩, accepted⟩ := h
  exact ⟨i, j, key, tokenExpires, keyExpires, hc, same, ⟨before, hbefore.trans more, returned⟩,
    ⟨before', hbefore'.trans more, asked⟩, accepted⟩

theorem Validated.mono {call : ℕ} {reading : Reading} (more : seen <+: seen')
    (h : Validated calls late seen call reading) : Validated calls late seen' call reading := by
  obtain ⟨hread, publicKey, c, fetched, rest⟩ := h
  exact ⟨hread, publicKey, c, fetched.mono more, rest⟩

variable {s : Serving PublicKey Data} {call : ℕ}

theorem Kept.mono (h : Kept calls late seen t s) (more : seen <+: seen') :
    Kept calls late seen' t s where
  followed := h.followed.mono (fun _ _ _ checked => checked.mono more)
    fun _ _ validated => validated.mono more
  keys := h.keys.mono fun _ _ _ fetched => fetched.mono more

/-! ### What one turn does -/

def Rests (calls : ℕ → Visit PublicKey Data) (late : ℚ) (seen : List Turn) (next : Turn)
    (answer : Option (Except Exc (AuthToken Data))) : Prop :=
  ∀ auth, answer = some (.ok auth) → ∃ c, CheckedBy calls late seen (calls next.call).token c auth ∧
    next.opens calls ≤ c + tokenTTL + late

theorem Kept.begins (hlate : 0 ≤ late) (h : Kept calls late seen t s)
    (hnow : t ≤ (calls call).now) (hcleared : (calls call).now ≤ (calls call).env.cleared) :
    Rests calls late seen (.begins call) (turn calls s (.begins call)).1 ∧
      Kept calls late seen (calls call).env.cleared (turn calls s (.begins call)).2 := by
  have start (reading : Reading) :=
    h.keys.start (E := Exc) hlate (hnow.trans hcleared) call le_rfl reading
  obtain ⟨rests, followed⟩ := h.followed.begins hlate hnow fun reading key finds => by
    obtain ⟨hread, hit, valid⟩ := finds
    obtain ⟨c, fetched, recent⟩ := (start reading).2 key hit
    exact ⟨hread, key, c, fetched, recent, valid⟩
  refine ⟨rests, followed.later hcleared, ?_⟩
  rcases begins_keys calls s call with same | ⟨reading, started⟩
  · exact same ▸ h.keys.later (hnow.trans hcleared)
  · exact started ▸ (start reading).1

theorem Kept.fetches (hlate : 0 ≤ late)
    (h : Kept calls late seen t (run (turn calls) resting seen))
    (hfetched : t ≤ (calls call).env.fetched)
    (hstored : (calls call).env.fetched ≤ (calls call).env.stored)
    (prompt : Prompt calls late (run (turn calls) resting seen) (.fetched call)
      (turn calls (run (turn calls) resting seen) (.fetched call)).1) :
    Rests calls late (seen ++ [.fetched call]) (.fetched call)
        (turn calls (run (turn calls) resting seen) (.fetched call)).1 ∧
      Kept calls late (seen ++ [.fetched call]) (calls call).env.stored
        (turn calls (run (turn calls) resting seen) (.fetched call)).2 := by
  have ht := hfetched.trans hstored
  have more := h.mono (List.prefix_append seen [.fetched call])
  have fetched (reading : Reading) (key : PublicKey)
      (hcall : (run (turn calls) resting seen).keys.awaiting call = some reading)
      (hkey : fetchPublicKeyBody (calls call).env reading.key.1 reading.key.2 = .ok key) :
      FetchedBy calls (seen ++ [.fetched call]) reading.key (calls call).env.stored key :=
    ⟨call, rfl, ⟨seen, List.prefix_rfl, reading, hcall, rfl⟩, hkey⟩
  obtain ⟨waits, followed⟩ := more.followed.fetches call
    fun reading key hcall hkey valid => by
      have recent : (calls call).env.cleared ≤ (calls call).env.stored + keyTTL + late :=
        calc (calls call).env.cleared ≤ (calls call).env.stored :=
              (h.keys.running call reading hcall).1.trans ht
          _ ≤ (calls call).env.stored + keyTTL := le_add_of_nonneg_right keyTTL_nonneg
          _ ≤ (calls call).env.stored + keyTTL + late := le_add_of_nonneg_right hlate
      exact ⟨h.followed.fetching call reading hcall, key, _, fetched reading key hcall hkey, recent,
        valid⟩
  refine ⟨fun auth returned => absurd returned (waits auth), followed.later ht, ?_⟩
  cases hcall : (run (turn calls) resting seen).keys.awaiting call with
  | none =>
    rw [turn, hcall]
    exact more.keys.later ht
  | some reading =>
    have same {reading' : Reading}
        (hcall' : (run (turn calls) resting seen).keys.awaiting call = some reading') :
        reading = reading' := Option.some.inj (hcall.symm.trans hcall')
    rw [fetched_keys hcall]
    refine more.keys.complete hlate ht call _ (fun reading' key hcall' hkey => ?_) ?_
    · exact fetched reading' key hcall' (same hcall' ▸ hkey)
    · cases hkey : fetchPublicKeyBody (calls call).env reading.key.1 reading.key.2 with
      | error e => trivial
      | ok key =>
        intro reading' hcall' held
        exact prompt reading key hcall hkey (same hcall' ▸ held)

theorem Validated.checked {reading : Reading} {auth : AuthToken Data}
    (h : Validated calls late seen call reading)
    (hauth : recordToken (calls call).env (calls call).token reading.2.2 = .ok auth)
    (checks : Checks calls seen call auth) :
    CheckedBy calls late seen (calls call).token (calls call).stored auth := by
  obtain ⟨hread, publicKey, c, ⟨j, rfl, fetches, fetched⟩, recent, valid⟩ := h
  obtain ⟨content, signature, load⟩ := reading
  obtain ⟨⟨bytes, fields, composed, decodes⟩, -, tokenExpires, hdate, current⟩ :=
    readToken_eq_ok hread
  obtain ⟨response, keyExpires, hresponse, hexpires, keyCurrent⟩ := fetchPublicKeyBody_eq_ok fetched
  have returns := recordToken_eq_ok hauth
  have accepted : Accepted (calls call) (calls j) (load.keyId, load.algorithm) auth tokenExpires
      keyExpires := {
    date := returns.expires.trans hdate
    keyDate := ⟨response, hresponse, hexpires⟩
    checked := ⟨content, signature, bytes, fields, load, publicKey, composed, decodes, rfl, fetched,
      validate_eq_ok valid, returns⟩ }
  exact ⟨call, j, _, tokenExpires, keyExpires, rfl, rfl, checks, fetches, accepted, current,
    keyCurrent, recent⟩

theorem Kept.looks (hlate : 0 ≤ late)
    (h : Kept calls late seen t (run (turn calls) resting seen))
    (hstored : t ≤ (calls call).stored)
    (prompt : Prompt calls late (run (turn calls) resting seen) (.looked call)
      (turn calls (run (turn calls) resting seen) (.looked call)).1) :
    Rests calls late (seen ++ [.looked call]) (.looked call)
        (turn calls (run (turn calls) resting seen) (.looked call)).1 ∧
      Kept calls late (seen ++ [.looked call]) (calls call).stored
        (turn calls (run (turn calls) resting seen) (.looked call)).2 := by
  have more := h.mono (List.prefix_append seen [.looked call])
  have checked (auth : AuthToken Data)
      (hauth : (turn calls (run (turn calls) resting seen) (.looked call)).1 = some (.ok auth)) :
      CheckedBy calls late (seen ++ [.looked call]) (calls call).token (calls call).stored
        auth := by
    obtain ⟨reading, hcall, returned⟩ := looked_eq_ok hauth
    exact (more.followed.checking call reading hcall).checked returned
      ⟨seen, List.prefix_rfl, hauth⟩
  refine ⟨fun auth returned => ⟨(calls call).stored, checked auth returned, ?_⟩,
    more.followed.looks hlate hstored checked prompt, ?_⟩
  · calc (calls call).stored ≤ (calls call).stored + tokenTTL :=
          le_add_of_nonneg_right tokenTTL_nonneg
      _ ≤ (calls call).stored + tokenTTL + late := le_add_of_nonneg_right hlate
  · rw [looked_keys]
    exact more.keys.later hstored

theorem Kept.turn (hlate : 0 ≤ late) (h : Kept calls late seen t (run (turn calls) resting seen))
    (next : Turn) (hopens : t ≤ next.opens calls) (hcloses : next.opens calls ≤ next.closes calls)
    (prompt : Prompt calls late (run (turn calls) resting seen) next
      (turn calls (run (turn calls) resting seen) next).1) :
    Rests calls late (seen ++ [next]) next (turn calls (run (turn calls) resting seen) next).1 ∧
      Kept calls late (seen ++ [next]) (next.closes calls)
        (turn calls (run (turn calls) resting seen) next).2 := by
  cases next with
  | begins call => exact (h.mono (List.prefix_append seen _)).begins hlate hopens hcloses
  | fetched call => exact h.fetches hlate hopens hcloses prompt
  | looked call => exact h.looks hlate hopens prompt

theorem kept_run (hlate : 0 ≤ late) {t₀ : ℚ} {schedule : List Turn}
    (clock : Clocked (Turn.opens calls) (Turn.closes calls) t₀ schedule)
    (prompt : Always (turn calls) (Prompt calls late) resting schedule) :
    Kept calls late schedule (lastReading (Turn.closes calls) t₀ schedule)
      (run (turn calls) resting schedule) := by
  induction schedule using List.reverseRecOn with
  | nil => exact ⟨followed_resting t₀, aged_idle t₀⟩
  | append_singleton schedule next ih =>
    obtain ⟨clock, hopens, hcloses, -⟩ := clocked_append.mp clock
    obtain ⟨before, last, -⟩ := always_append.mp prompt
    rw [run_append, lastReading_append]
    exact ((ih clock before).turn hlate next hopens hcloses last).2

end Runs

/-- In every run of calls, however they overlap: a call that returns a token rests on a call `i`
that checked it and a call `j` that fetched its key. The token was current when `i` checked it, and
is returned at most 30 seconds after `i` stored it; the key was current when `j` fetched it, and `i`
took it at most 24 hours after `j` stored it; and `late` more, if calls store over each other. -/
theorem verifyToken_fresh (calls : ℕ → Visit PublicKey Data) (late : ℚ) (hlate : 0 ≤ late) (t₀ : ℚ)
    (schedule : List Turn) (next : Turn)
    (clock : Clocked (Turn.opens calls) (Turn.closes calls) t₀ (schedule ++ [next]))
    (prompt : Always (turn calls) (Prompt calls late) resting (schedule ++ [next]))
    (auth : AuthToken Data)
    (h : (turn calls (run (turn calls) resting schedule) next).1 = some (.ok auth)) :
    ∃ i j key tokenExpires keyExpires, (calls i).token = (calls next.call).token ∧
      Checks calls (schedule ++ [next]) i auth ∧ Fetches calls (schedule ++ [next]) j key ∧
      Accepted (calls i) (calls j) key auth tokenExpires keyExpires ∧
      (calls i).env.now ≤ tokenExpires ∧ next.opens calls ≤ (calls i).stored + 30 + late ∧
      (calls j).env.fetched ≤ keyExpires ∧
      (calls i).env.cleared ≤ (calls j).env.stored + 24 * 60 * 60 + late := by
  obtain ⟨clock, hopens, hcloses, -⟩ := clocked_append.mp clock
  obtain ⟨before, last, -⟩ := always_append.mp prompt
  obtain ⟨c, ⟨i, j, key, tokenExpires, keyExpires, rfl, same, checks, fetches, accepted, current,
    keyCurrent, fresh⟩, recent⟩ :=
    ((kept_run hlate clock before).turn hlate next hopens hcloses last).1 auth h
  have day : keyTTL = 24 * 60 * 60 := by norm_num [keyTTL]
  exact ⟨i, j, key, tokenExpires, keyExpires, same, checks, fetches, accepted, current, recent,
    keyCurrent, day ▸ fresh⟩

def sampleToken : Str :=
  let load := [97] ++ 46 :: (b64encode [1] ++ 46 :: (b64encode [60] ++ 46 :: (b64encode [] ++
    46 :: (b64encode (List.replicate 16 0) ++ 46 :: [123, 125]))))
  ofBytes (b64encode [49] ++ 46 :: (b64encode load ++ 46 :: b64encode [7]))

/-- A call of services that sign everything and know the token, with a key that expires at 61. -/
def sampleVisit (now fetched stored : ℚ) : Visit Unit Bytes :=
  ⟨({ request := fun _ _ => .ok ⟨[], [], .aware 61⟩
      loadDerPublicKey := fun _ => .ok ()
      verify := fun _ _ _ => .ok ()
      lookup := fun _ => .ok ⟨.active, 1, ofBytes [97], .aware 60⟩
      loads := .ok
      now := now, cleared := now, fetched := fetched, stored := fetched }, sampleToken),
    now, stored⟩

def sampleAuth : AuthToken Bytes :=
  ⟨0, .aware 60, ⟨List.replicate 16 0, by decide⟩, [123, 125], sampleToken⟩

def sampleCalls : ℕ → Visit Unit Bytes
  | 0 => sampleVisit 55 57 58
  | 1 => sampleVisit 56 57 59
  | _ => sampleVisit 70 70 70

/-- Two calls overlap, and both check the token; a third is answered from the cache. -/
theorem verifyToken_fresh_single :
    let schedule : List Turn :=
      [.begins 0, .begins 1, .fetched 0, .fetched 1, .looked 0, .looked 1]
    ∃ i j key tokenExpires keyExpires, (sampleCalls i).token = sampleToken ∧
      Checks sampleCalls (schedule ++ [.begins 2]) i sampleAuth ∧
      Fetches sampleCalls (schedule ++ [.begins 2]) j key ∧
      Accepted (sampleCalls i) (sampleCalls j) key sampleAuth tokenExpires keyExpires ∧
      (sampleCalls i).env.now ≤ tokenExpires ∧ 70 ≤ (sampleCalls i).stored + 30 + 3 ∧
      (sampleCalls j).env.fetched ≤ keyExpires ∧
      (sampleCalls i).env.cleared ≤ (sampleCalls j).env.stored + 24 * 60 * 60 + 3 := by
  intro schedule
  refine verifyToken_fresh sampleCalls 3 (by norm_num) 55 schedule (.begins 2) ?_ ?_ sampleAuth
    (by decide +kernel)
  · norm_num [schedule, Clocked, Turn.opens, Turn.closes, sampleCalls, sampleVisit, Visit.env]
  · norm_num [schedule, Always, Prompt, sampleCalls, sampleVisit, Visit.env]

/-- Accepted at 58, the token is accepted again at 70, when it has expired and so has its key. -/
theorem verifyToken_accepts_expired :
    ¬ ∀ (calls : ℕ → Visit Unit Bytes) (t₀ : ℚ) (schedule : List Turn) (next : Turn),
      Clocked (Turn.opens calls) (Turn.closes calls) t₀ (schedule ++ [next]) → ∀ auth,
      (turn calls (run (turn calls) resting schedule) next).1 = some (.ok auth) →
      ∃ i j key tokenExpires keyExpires, (calls i).token = (calls next.call).token ∧
        Checks calls (schedule ++ [next]) i auth ∧ Fetches calls (schedule ++ [next]) j key ∧
        Accepted (calls i) (calls j) key auth tokenExpires keyExpires ∧
        next.opens calls ≤ tokenExpires ∧ next.opens calls ≤ keyExpires := by
  intro all
  obtain ⟨i, j, key, tokenExpires, keyExpires, -, -, -, accepted, current, -⟩ :=
    all sampleCalls 55 [.begins 0, .fetched 0, .looked 0] (.begins 2)
      (by norm_num [Clocked, Turn.opens, Turn.closes, sampleCalls, sampleVisit, Visit.env])
      sampleAuth (by decide +kernel)
  have date : tokenExpires = 60 := (Datetime.aware.inj accepted.date).symm
  rw [date] at current
  norm_num [Turn.opens, sampleCalls, sampleVisit] at current

end KhCommon.Auth
