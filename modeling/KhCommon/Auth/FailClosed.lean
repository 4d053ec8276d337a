import KhCommon.Auth.Errors
import KhCommon.Auth.Middleware

/-! The middleware is fail-closed. The only way past `required` without a token
would be an `HttpError` other than `Unauthorized`, and nothing in the pipeline
raises one: every error of `verifyToken` is an error of what it calls or one of its
own. What is outside the repository does not know the class. -/

namespace KhCommon.Auth

open Python Outcome

theorem own_ne_httpError : Own (· ≠ .httpError) := by
  constructor <;> simp

namespace KhAuthMiddleware

variable {PublicKey : Type} {middleware : KhAuthMiddleware} {env : Env PublicKey Json}
  {caches : Caches PublicKey} {readings : Readings} {request : Request}

theorem call_eq (http : request.type = .http) (path : request.path ≠ literal "/openapi.json") :
    middleware.call env caches readings request =
      let answer := retrieveAuthToken env caches readings request
      middleware.conclude answer.2 (answer.1.bind KhUser.ofToken) := by
  simp [call, http, path]

theorem raises_user (foreign : env.Foreign (· ≠ .httpError)) :
    Raises (· ≠ .httpError)
      ((retrieveAuthToken env caches readings request).1.bind KhUser.ofToken) := by
  have raised : Raises (· ≠ .httpError) (retrieveAuthToken env caches readings request).1 := by
    by_cases presents : ∃ word, Presents request word
    · obtain ⟨word, hword⟩ := presents
      rw [retrieveAuthToken_of_presents hword]
      exact foreign.verifyToken own_ne_httpError caches _
    · rw [retrieveAuthToken_of_not_presents (not_exists.mp presents)]
      refine meets_error.mpr ?_
      split <;> nofun
  exact raised.bind fun token => raises_ofToken token nofun nofun nofun

theorem conclude_cases (middleware : KhAuthMiddleware) (caches : Caches PublicKey)
    {outcome : Except Exc KhUser} (known : Raises (· ≠ .httpError) outcome) :
    (∃ user, outcome = .ok user ∧
        middleware.conclude caches outcome = middleware.invoke (some user) caches) ∨
      (middleware.authRequired = false ∧ (∀ user, outcome ≠ .ok user) ∧
        middleware.conclude caches outcome = middleware.invoke (some .anonymous) caches) ∨
      ∀ user, .app user ∉ (middleware.conclude caches outcome).actions := by
  rcases outcome with e | user
  · right
    cases e with
    | unauthorized message =>
      cases required : middleware.authRequired with
      | true => exact .inr (by simp [conclude, required, respond])
      | false => exact .inl ⟨rfl, nofun, by simp [conclude, required]⟩
    | httpError => exact absurd rfl known
    | _ => exact .inr (by simp [conclude, respond])
  · exact .inl ⟨user, rfl, rfl⟩

theorem countP_isApp {actions : List Action} (never : ∀ user, .app user ∉ actions) :
    actions.countP Action.isApp = 0 := by
  refine List.countP_eq_zero.mpr fun action hmem => ?_
  cases action with
  | app user => exact absurd hmem (never user)
  | respond response => simp [Action.isApp]

/-- At most one call of the app; with a token only if `verifyToken` returned it for the last word
of the credential of this request, and then for the user and the scopes it names; without a
verified token not at all, or for the anonymous user when authentication is not required. -/
theorem call_failClosed (middleware : KhAuthMiddleware) (env : Env PublicKey Json)
    (foreign : env.Foreign (· ≠ .httpError)) (caches : Caches PublicKey) (readings : Readings)
    (request : Request) (http : request.type = .http)
    (path : request.path ≠ literal "/openapi.json") :
    let answer := middleware.call env caches readings request
    let verified word := (verifyToken env caches ⟨word, readings.now, readings.stored⟩).1
    answer.actions.countP Action.isApp ≤ 1 ∧
    .app none ∉ answer.actions ∧
    (∀ user token, .app (some user) ∈ answer.actions → user.token = some token →
      (∃ word, Presents request word ∧ verified word = .ok token) ∧
        user.userId = some token.userId ∧
        ∀ scope, scope ∈ user.scope ↔ scope = .user ∨ token.data.Names scope) ∧
    ((∀ word token, Presents request word → verified word ≠ .ok token) →
      (middleware.authRequired = true → ∀ user, .app user ∉ answer.actions) ∧
      (middleware.authRequired = false → ∀ user, .app user ∈ answer.actions →
        user = some ⟨none, none, {.default}⟩)) := by
  intro answer verified
  have outcome : answer = _ := call_eq http path
  rw [outcome]
  have known : Raises (· ≠ .httpError)
      ((retrieveAuthToken env caches readings request).1.bind KhUser.ofToken) :=
    raises_user foreign
  rcases conclude_cases middleware (retrieveAuthToken env caches readings request).2 known with
    ⟨user, accepted, called⟩ | ⟨optional, failed, called⟩ | never
  · obtain ⟨token, retrieved, built⟩ := bind_eq_ok.mp accepted
    obtain ⟨userId, held, scopes⟩ := KhUser.ofToken_eq_ok built
    have presented := retrieveAuthToken_eq_ok retrieved
    simp only [called]
    refine ⟨by simp [invoke, Action.isApp], by simp [invoke], ?_, fun unverified => ?_⟩
    · intro user' token' hmem htoken
      obtain rfl : user' = user := by simpa [invoke] using hmem
      obtain rfl : token = token' := by simpa [held] using htoken
      exact ⟨presented, userId, scopes⟩
    · obtain ⟨word, hword, verified⟩ := presented
      exact absurd verified (unverified word token hword)
  · simp only [called]
    refine ⟨by simp [invoke, Action.isApp], by simp [invoke], ?_, fun _ => ⟨?_, ?_⟩⟩
    · intro user' token' hmem htoken
      obtain rfl : user' = .anonymous := by simpa [invoke] using hmem
      cases htoken
    · simp [optional]
    · intro _ user hmem
      simpa [invoke, KhUser.anonymous] using hmem
  · refine ⟨?_, never none, fun user token hmem => absurd hmem (never _), fun _ =>
      ⟨fun _ => never, fun _ user hmem => absurd hmem (never user)⟩⟩
    rw [countP_isApp never]
    exact Nat.zero_le 1

theorem call_failClosed_missing :
    let env : Env Unit Json := {
      request := fun _ _ => .error .other
      loadDerPublicKey := fun _ => .ok ()
      verify := fun _ _ _ => .ok ()
      lookup := fun _ => .error .recordNotFound
      loads := fun _ => .ok (.dict [])
      now := 5, cleared := 5, fetched := 5, stored := 5 }
    ∀ user, .app user ∉ ((KhAuthMiddleware.mk (fun _ => .ok ()) true).call env (∅, ∅) ⟨5, 5⟩
      ⟨.http, literal "/", none, none⟩).actions := by
  intro env
  have foreign : env.Foreign (· ≠ .httpError) := by
    constructor <;> simp [env]
  obtain ⟨-, -, -, unverified⟩ := call_failClosed ⟨fun _ => .ok (), true⟩ env foreign (∅, ∅) ⟨5, 5⟩
    ⟨.http, literal "/", none, none⟩ rfl (by decide)
  refine (unverified fun word token presents => ?_).1 rfl
  obtain ⟨credential, -, given⟩ := presents
  simp at given

end KhAuthMiddleware

end KhCommon.Auth
