import KhCommon.Auth.Serving
import KhCommon.Caching.AsyncAge

/-! What is kept of a run of overlapping calls, whatever it is that matters: what `Tok`
says of the tokens in the cache, and `Chk` of the calls that await their record. A turn
keeps it if what the turn stores, and the call it leaves waiting, are as wanted. -/

namespace KhCommon.Auth.Serving

open Python Machine Caching

variable {PublicKey Data : Type}

structure Followed (calls : ℕ → Visit PublicKey Data) (Tok : Str → ℚ → AuthToken Data → Prop)
    (Chk : ℕ → Reading → Prop) (late t : ℚ) (s : Serving PublicKey Data) : Prop where
  tokens : Aged Tok id tokenTTL late (fun call => (calls call).now) t s.tokens
  asked : ∀ call token, s.tokens.awaiting call = some token → (calls call).token = token
  fetching : ∀ call reading, s.keys.awaiting call = some reading →
    readToken (calls call).env (calls call).token = .ok reading
  checking : ∀ call reading, s.checking call = some reading → Chk call reading

variable {calls : ℕ → Visit PublicKey Data} {Tok Tok' : Str → ℚ → AuthToken Data → Prop}
  {Chk Chk' : ℕ → Reading → Prop} {late t : ℚ} {s : Serving PublicKey Data} {call : ℕ}

theorem followed_resting (t : ℚ) :
    Followed calls Tok Chk late t (resting : Serving PublicKey Data) where
  tokens := aged_idle t
  asked call token h := by cases h
  fetching call reading h := by cases h
  checking call reading h := by cases h

theorem Followed.mono (h : Followed calls Tok Chk late t s)
    (tok : ∀ token c auth, Tok token c auth → Tok' token c auth)
    (chk : ∀ call reading, Chk call reading → Chk' call reading) :
    Followed calls Tok' Chk' late t s where
  tokens := h.tokens.mono tok
  asked := h.asked
  fetching := h.fetching
  checking call reading hcall := chk call reading (h.checking call reading hcall)

theorem Followed.later {t' : ℚ} (h : Followed calls Tok Chk late t s) (ht : t ≤ t') :
    Followed calls Tok Chk late t' s where
  tokens := h.tokens.later ht
  asked := h.asked
  fetching := h.fetching
  checking := h.checking

theorem Followed.fails (h : Followed calls Tok Chk late t s) (e : Exc) :
    Followed calls Tok Chk late t (finish calls s call (.error e)).2 where
  tokens := h.tokens.fail call _ e
  asked call' token hcall := h.asked call' token (awaiting_complete hcall)
  fetching := h.fetching
  checking := h.checking

theorem Followed.finishes (hlate : 0 ≤ late) (h : Followed calls Tok Chk late t s)
    (hstored : t ≤ (calls call).stored) (result : Except Exc (AuthToken Data))
    (good : ∀ auth, result = .ok auth → Tok (calls call).token (calls call).stored auth)
    (prompt : ∀ auth, result = .ok auth → (calls call).token ∈ s.tokens.cache →
      (calls call).stored ≤ (calls call).now + late) :
    Followed calls Tok Chk late (calls call).stored (finish calls s call result).2 where
  tokens := by
    refine h.tokens.complete hlate hstored call result (fun token auth hcall hresult => ?_) ?_
    · exact h.asked call token hcall ▸ good auth hresult
    · cases result with
      | error e => trivial
      | ok auth =>
        intro token hcall held
        exact prompt auth rfl (h.asked call token hcall ▸ held)
  asked call' token hcall := h.asked call' token (awaiting_complete hcall)
  fetching := h.fetching
  checking := h.checking

theorem Followed.validates (h : Followed calls Tok Chk late t s) {reading : Reading}
    {publicKey : Except Exc PublicKey}
    (good : ∀ key, publicKey = .ok key →
      validate (calls call).env key reading.1 reading.2.1 = .ok () → Chk call reading) :
    Followed calls Tok Chk late t (validated calls s call reading publicKey).2 := by
  unfold validated
  split
  · case h_1 valid =>
    obtain ⟨key, hkey, valid⟩ := bind_eq_ok.mp valid
    refine ⟨h.tokens, h.asked, h.fetching, fun call' reading' hcall => ?_⟩
    rcases update_eq_some_iff.mp hcall with ⟨rfl, ⟨⟩⟩ | ⟨-, hcall⟩
    · exact good key hkey valid
    · exact h.checking call' reading' hcall
  · exact h.fails _

theorem validated_waits (reading : Reading) (publicKey : Except Exc PublicKey)
    (auth : AuthToken Data) : (validated calls s call reading publicKey).1 ≠ some (.ok auth) := by
  unfold validated
  split <;> simp [finish]

/-- The call finds a key in the cache, with which its signature is good. -/
def FindsKey (calls : ℕ → Visit PublicKey Data) (s : Serving PublicKey Data) (call : ℕ)
    (reading : Reading) (key : PublicKey) : Prop :=
  readToken (calls call).env (calls call).token = .ok reading ∧
    (asyncWrapper Reading.key keyTTL s.keys
      (.start call reading (calls call).env.cleared : Event Reading Exc PublicKey)).1 =
      .cached key ∧
    validate (calls call).env key reading.1 reading.2.1 = .ok ()

theorem Followed.reads (h : Followed calls Tok Chk late t s)
    (good : ∀ reading key, FindsKey calls s call reading key → Chk call reading) :
    Followed calls Tok Chk late t (opened calls s call).2 ∧
      ∀ auth, (opened calls s call).1 ≠ some (.ok auth) := by
  unfold opened
  cases hread : readToken (calls call).env (calls call).token with
  | error e => exact ⟨h.fails e, by simp [finish]⟩
  | ok reading =>
    have fetching (call' : ℕ) (reading' : Reading) (hcall : (asyncWrapper Reading.key keyTTL s.keys
        (.start call reading (calls call).env.cleared : Event Reading Exc PublicKey)).2.awaiting
          call' = some reading') :
        readToken (calls call').env (calls call').token = .ok reading' := by
      rcases awaiting_start hcall with hcall | ⟨rfl, rfl⟩
      · exact h.fetching call' reading' hcall
      · exact hread
    have found (key : PublicKey) (hit : (asyncWrapper Reading.key keyTTL s.keys
        (.start call reading (calls call).env.cleared : Event Reading Exc PublicKey)).1 =
          .cached key) (valid : validate (calls call).env key reading.1 reading.2.1 = .ok ()) :=
      good reading key ⟨hread, hit, valid⟩
    dsimp only
    generalize asyncWrapper Reading.key keyTTL s.keys _ = start at fetching found ⊢
    obtain ⟨outcome, keys⟩ := start
    have kept : Followed calls Tok Chk late t { s with keys } :=
      ⟨h.tokens, h.asked, fetching, h.checking⟩
    cases outcome with
    | cached key =>
      refine ⟨kept.validates ?_, fun auth => validated_waits _ _ auth⟩
      rintro key' ⟨⟩ valid
      exact found key rfl valid
    | awaits => exact ⟨kept, by simp⟩
    | returned result => exact ⟨kept, by simp⟩
    | nothing => exact ⟨kept, by simp⟩

theorem Followed.enters (h : Followed calls Tok Chk late t s)
    (good : ∀ reading key, FindsKey calls s call reading key → Chk call reading) :
    Followed calls Tok Chk late t (entered calls s call).2 ∧
      ∀ auth, (entered calls s call).1 ≠ some (.ok auth) := by
  unfold entered
  split
  · exact ⟨h.fails _, by simp [finish]⟩
  · exact h.reads good
  · exact ⟨h.fails _, by simp [finish]⟩

theorem Followed.begins (hlate : 0 ≤ late) (h : Followed calls Tok Chk late t s)
    (hnow : t ≤ (calls call).now)
    (good : ∀ reading key, FindsKey calls s call reading key → Chk call reading) :
    (∀ auth, (turn calls s (.begins call)).1 = some (.ok auth) →
      ∃ c, Tok (calls call).token c auth ∧ (calls call).now ≤ c + tokenTTL + late) ∧
    Followed calls Tok Chk late (calls call).now (turn calls s (.begins call)).2 := by
  rw [turn]
  obtain ⟨tokens, served⟩ := h.tokens.start hlate hnow call le_rfl (calls call).token
  have asked (call' : ℕ) (token : Str) (hcall : (asyncWrapper id tokenTTL s.tokens
      (.start call (calls call).token (calls call).now :
        Event Str Exc (AuthToken Data))).2.awaiting call' = some token) :
      (calls call').token = token := by
    rcases awaiting_start hcall with hcall | ⟨rfl, rfl⟩
    · exact h.asked call' token hcall
    · rfl
  generalize asyncWrapper id tokenTTL s.tokens _ = start at tokens served asked ⊢
  obtain ⟨outcome, tokens'⟩ := start
  have kept : Followed calls Tok Chk late (calls call).now { s with tokens := tokens' } :=
    ⟨tokens, asked, h.fetching, h.checking⟩
  cases outcome with
  | cached auth =>
    refine ⟨?_, kept⟩
    rintro auth' ⟨⟩
    exact served auth rfl
  | awaits =>
    obtain ⟨kept, waits⟩ := kept.enters good
    exact ⟨fun auth returned => absurd returned (waits auth), kept⟩
  | returned result => exact ⟨by rintro auth ⟨⟩, kept⟩
  | nothing => exact ⟨by rintro auth ⟨⟩, kept⟩

variable (call) in
theorem Followed.fetches (h : Followed calls Tok Chk late t s)
    (good : ∀ reading key, s.keys.awaiting call = some reading →
      fetchPublicKeyBody (calls call).env reading.key.1 reading.key.2 = .ok key →
      validate (calls call).env key reading.1 reading.2.1 = .ok () → Chk call reading) :
    (∀ auth, (turn calls s (.fetched call)).1 ≠ some (.ok auth)) ∧
      Followed calls Tok Chk late t (turn calls s (.fetched call)).2 := by
  rw [turn]
  cases hcall : s.keys.awaiting call with
  | none => exact ⟨by simp, h⟩
  | some reading =>
    refine ⟨fun auth => validated_waits _ _ auth,
      Followed.validates ?_ fun key => good reading key hcall⟩
    exact ⟨h.tokens, h.asked, fun call' reading' hcall' =>
      h.fetching call' reading' (awaiting_complete hcall'), h.checking⟩

theorem Followed.looks (hlate : 0 ≤ late) (h : Followed calls Tok Chk late t s)
    (hstored : t ≤ (calls call).stored)
    (good : ∀ auth, (turn calls s (.looked call)).1 = some (.ok auth) →
      Tok (calls call).token (calls call).stored auth)
    (prompt : ∀ auth, (turn calls s (.looked call)).1 = some (.ok auth) →
      (calls call).token ∈ s.tokens.cache → (calls call).stored ≤ (calls call).now + late) :
    Followed calls Tok Chk late (calls call).stored (turn calls s (.looked call)).2 := by
  rw [turn] at good prompt ⊢
  cases hcall : s.checking call with
  | none => exact h.later hstored
  | some reading =>
    rw [hcall] at good prompt
    have leaves : Followed calls Tok Chk late t
        { s with checking := Function.update s.checking call none } := by
      refine ⟨h.tokens, h.asked, h.fetching, fun call' reading' hcall' => ?_⟩
      rcases update_eq_some_iff.mp hcall' with ⟨-, ⟨⟩⟩ | ⟨-, hcall'⟩
      exact h.checking call' reading' hcall'
    exact leaves.finishes hlate hstored _ (fun auth hauth => good auth (congrArg some hauth))
      fun auth hauth => prompt auth (congrArg some hauth)

/-- What the turn returns when the record was looked up. -/
theorem looked_eq_ok {auth : AuthToken Data}
    (h : (turn calls s (.looked call)).1 = some (.ok auth)) :
    ∃ reading, s.checking call = some reading ∧
      recordToken (calls call).env (calls call).token reading.2.2 = .ok auth := by
  rw [turn] at h
  cases hcall : s.checking call with
  | none =>
    rw [hcall] at h
    cases h
  | some reading =>
    rw [hcall] at h
    exact ⟨reading, rfl, Option.some.inj h⟩

/-! ## The cache of keys -/

theorem opened_keys : (opened calls s call).2.keys = s.keys ∨
    ∃ reading, (opened calls s call).2.keys = (asyncWrapper Reading.key keyTTL s.keys
      (.start call reading (calls call).env.cleared : Event Reading Exc PublicKey)).2 := by
  unfold opened
  cases readToken (calls call).env (calls call).token with
  | error e => exact .inl rfl
  | ok reading =>
    refine .inr ⟨reading, ?_⟩
    dsimp only
    generalize asyncWrapper Reading.key keyTTL s.keys _ = start
    obtain ⟨outcome, keys⟩ := start
    cases outcome with
    | cached key => exact validated_keys reading (.ok key)
    | awaits => rfl
    | returned result => rfl
    | nothing => rfl

variable (calls s call) in
theorem begins_keys : (turn calls s (.begins call)).2.keys = s.keys ∨
    ∃ reading, (turn calls s (.begins call)).2.keys = (asyncWrapper Reading.key keyTTL s.keys
      (.start call reading (calls call).env.cleared : Event Reading Exc PublicKey)).2 := by
  rw [turn]
  generalize asyncWrapper id tokenTTL s.tokens _ = start
  obtain ⟨outcome, tokens⟩ := start
  cases outcome with
  | cached auth => exact .inl rfl
  | awaits =>
    dsimp only
    unfold entered
    split
    · exact .inl rfl
    · exact opened_keys
    · exact .inl rfl
  | returned result => exact .inl rfl
  | nothing => exact .inl rfl

theorem fetched_keys {reading : Reading} (awaits : s.keys.awaiting call = some reading) :
    (turn calls s (.fetched call)).2.keys = (asyncWrapper Reading.key keyTTL s.keys
      (.complete call (calls call).env.stored
        (fetchPublicKeyBody (calls call).env reading.key.1 reading.key.2))).2 := by
  rw [turn, awaits]
  exact validated_keys reading _

theorem looked_keys : (turn calls s (.looked call)).2.keys = s.keys := by
  rw [turn]
  cases s.checking call <;> rfl

end KhCommon.Auth.Serving
