import KhCommon.Auth.Middleware

/-! `KhUser.authenticated` and `KhUser.verify_scope`. The second awaits the first and
drops what it returns, so the answer False of a user that is not authenticated is
lost. `verifyToken` is a parameter here, and then the one of the module: it answers
or raises as it likes. Tokens are compared as Python compares them. -/

namespace KhCommon.Auth

open Python

/-! ## Comparing tokens -/

mutual

/-- `==` of what `json.loads` returns; True is 1 and False is 0. -/
def Json.eq : (a b : Json) → Bool
  | .null, .null => true
  | .bool a, .bool b => a = b
  | .bool a, .number b => (if a then 1 else 0) = b
  | .number a, .bool b => a = if b then 1 else 0
  | .number a, .number b => a = b
  | .str a, .str b => a = b
  | .list a, .list b => Json.eqItems a b
  | .dict a, .dict b => a.length = b.length && Json.eqEntries a b
  | _, _ => false

def Json.eqItems : (a b : List Json) → Bool
  | [], [] => true
  | a :: as, b :: bs => a.eq b && Json.eqItems as bs
  | _, _ => false

def Json.eqEntries : (a b : List (Str × Json)) → Bool
  | [], _ => true
  | (key, a) :: as, b =>
    (match b.lookup key with
      | some value => a.eq value
      | none => false) && Json.eqEntries as b

end

def AuthToken.eq (a b : AuthToken Json) : Bool :=
  a.userId = b.userId && a.expires = b.expires && a.guid = b.guid && a.data.eq b.data &&
    a.tokenString = b.tokenString

/-! ## The two methods -/

inductive ScopeExc
  | authenticated (error : Exc)
  | forbidden (message : String)

namespace KhUser

variable {σ : Type} (verifyToken : Str → σ → Except Exc (AuthToken Json) × σ) (self : KhUser)

def authenticated (raiseError : Bool) (s : σ) : Except Exc Bool × σ :=
  let refuse : Except Exc Bool :=
    if raiseError then .error (.unauthorized "User is not authenticated.") else .ok false
  match self.token with
  | none => (refuse, s)
  | some token =>
    match verifyToken token.tokenString s with
    | (.error e, s) => (.error e, s)
    | (.ok verified, s) => (if token.eq verified then .ok true else refuse, s)

/-- What `authenticated` returns is not looked at. -/
def verifyScope (scope : Scope) (raiseError : Bool) (s : σ) : Except ScopeExc Bool × σ :=
  match self.authenticated verifyToken raiseError s with
  | (.error e, s) => (.error (.authenticated e), s)
  | (.ok _, s) =>
    if scope ∉ self.scope then
      (.error (.forbidden "User is not authorized to access this resource."), s)
    else (.ok true, s)

def Verified (s : σ) : Prop :=
  ∃ token verified, self.token = some token ∧
    (verifyToken token.tokenString s).1 = .ok verified ∧ token.eq verified

/-- Only a verified user with the scope passes, and without `raise_error` nothing is refused by an
exception. -/
structure Honours (user : KhUser) (scope : Scope) (raiseError : Bool) (s : σ) : Prop where
  sound : (user.verifyScope verifyToken scope raiseError s).1 = .ok true →
    user.Verified verifyToken s ∧ scope ∈ user.scope
  authenticated : raiseError = false →
    ∀ message, (user.authenticated verifyToken raiseError s).1 ≠ .error (.unauthorized message)
  unauthorized : raiseError = false → ∀ message,
    (user.verifyScope verifyToken scope raiseError s).1 ≠
      .error (.authenticated (.unauthorized message))
  forbidden : raiseError = false → ∀ message,
    (user.verifyScope verifyToken scope raiseError s).1 ≠ .error (.forbidden message)

/-! ## What they answer -/

variable {verifyToken self} {scope : Scope} {raiseError : Bool} {s : σ}

theorem authenticated_of_verified (h : self.Verified verifyToken s) (raiseError : Bool) :
    (self.authenticated verifyToken raiseError s).1 = .ok true := by
  obtain ⟨token, verified, hold, returned, same⟩ := h
  rcases outcome : verifyToken token.tokenString s with ⟨answer, s'⟩
  rw [outcome] at returned
  cases returned
  simp only [authenticated, hold, outcome, if_pos same]

theorem authenticated_of_not_verified (h : ¬self.Verified verifyToken s) (raiseError : Bool) :
    (∃ token e, self.token = some token ∧ (verifyToken token.tokenString s).1 = .error e ∧
      (self.authenticated verifyToken raiseError s).1 = .error e) ∨
    ((∀ token, self.token = some token → ∃ verified,
        (verifyToken token.tokenString s).1 = .ok verified) ∧
      (self.authenticated verifyToken raiseError s).1 =
        if raiseError then .error (.unauthorized "User is not authenticated.") else .ok false) := by
  cases hold : self.token with
  | none => exact .inr ⟨by simp, by rw [authenticated, hold]⟩
  | some token =>
    rcases outcome : verifyToken token.tokenString s with ⟨e | verified, s'⟩
    · exact .inl ⟨token, e, rfl, by rw [outcome], by simp only [authenticated, hold, outcome]⟩
    · have other : ¬token.eq verified := fun same =>
        h ⟨token, verified, hold, by rw [outcome], same⟩
      refine .inr ⟨?_, by simp only [authenticated, hold, outcome, if_neg other]⟩
      rintro _ ⟨⟩
      exact ⟨verified, by rw [outcome]⟩

theorem verifyScope_of_ok (scope : Scope) {b : Bool}
    (h : (self.authenticated verifyToken raiseError s).1 = .ok b) :
    (self.verifyScope verifyToken scope raiseError s).1 =
      if scope ∉ self.scope then
        .error (.forbidden "User is not authorized to access this resource.")
      else .ok true := by
  rcases outcome : self.authenticated verifyToken raiseError s with ⟨answer, s'⟩
  rw [outcome] at h
  cases h
  simp only [verifyScope, outcome]
  split_ifs <;> rfl

theorem verifyScope_of_error (scope : Scope) {e : Exc}
    (h : (self.authenticated verifyToken raiseError s).1 = .error e) :
    (self.verifyScope verifyToken scope raiseError s).1 = .error (.authenticated e) := by
  rcases outcome : self.authenticated verifyToken raiseError s with ⟨answer, s'⟩
  rw [outcome] at h
  cases h
  simp only [verifyScope, outcome]

theorem verified_of_passed {scope : Scope}
    (passed : (self.verifyScope verifyToken scope true s).1 = .ok true) :
    self.Verified verifyToken s ∧ scope ∈ self.scope := by
  have hold : self.Verified verifyToken s := by
    by_contra refused
    rcases authenticated_of_not_verified refused true with ⟨token, e, -, -, raised⟩ | ⟨-, raised⟩
    · rw [verifyScope_of_error scope raised] at passed
      cases passed
    · rw [verifyScope_of_error scope raised] at passed
      cases passed
  refine ⟨hold, ?_⟩
  rw [verifyScope_of_ok scope (authenticated_of_verified hold true)] at passed
  by_contra outside
  rw [if_pos outside] at passed
  cases passed

theorem honours_of_verified (h : self.Verified verifyToken s) (scope : Scope) :
    self.Honours verifyToken scope false s ↔ scope ∈ self.scope := by
  have answer := authenticated_of_verified h false
  have passes := verifyScope_of_ok scope answer
  constructor
  · intro honours
    by_contra outside
    rw [if_pos outside] at passes
    exact honours.forbidden rfl _ passes
  · intro inside
    rw [if_neg (not_not.mpr inside)] at passes
    exact ⟨fun _ => ⟨h, inside⟩, by simp [answer], by simp [passes], by simp [passes]⟩

theorem honours_of_raised {e : Exc} (scope : Scope)
    (answer : (self.authenticated verifyToken false s).1 = .error e) :
    self.Honours verifyToken scope false s ↔ ∀ message, e ≠ .unauthorized message := by
  have passes := verifyScope_of_error scope answer
  constructor
  · rintro honours message rfl
    exact honours.authenticated rfl message answer
  · intro other
    exact ⟨by simp [passes], by simpa [answer] using other, by simpa [passes] using other,
      by simp [passes]⟩

theorem not_honours_of_false (h : ¬self.Verified verifyToken s) (scope : Scope)
    (answer : (self.authenticated verifyToken false s).1 = .ok false) :
    ¬self.Honours verifyToken scope false s := by
  intro honours
  have passes := verifyScope_of_ok scope answer
  by_cases outside : scope ∉ self.scope
  · rw [if_pos outside] at passes
    exact honours.forbidden rfl _ passes
  · rw [if_neg outside] at passes
    exact h (honours.sound passes).1

end KhUser

/-- With `raise_error`, or for a verified user that has the scope, both methods keep their
contract. In the other cases they do only where `verifyToken` itself raises something else. -/
theorem verifyScope_honours_iff {σ : Type}
    (verifyToken : Str → σ → Except Exc (AuthToken Json) × σ) (self : KhUser) (scope : Scope)
    (raiseError : Bool) (s : σ) :
    self.Honours verifyToken scope raiseError s ↔
      raiseError = true ∨ (self.Verified verifyToken s ∧ scope ∈ self.scope) ∨
        ∃ token e, self.token = some token ∧ (verifyToken token.tokenString s).1 = .error e ∧
          ∀ message, e ≠ .unauthorized message := by
  cases raiseError with
  | true => exact iff_of_true ⟨KhUser.verified_of_passed, nofun, nofun, nofun⟩ (.inl rfl)
  | false =>
    by_cases verified : self.Verified verifyToken s
    · rw [KhUser.honours_of_verified verified]
      constructor
      · exact fun inside => .inr (.inl ⟨verified, inside⟩)
      · rintro (h | ⟨-, inside⟩ | ⟨token, e, hold, raised, -⟩)
        · cases h
        · exact inside
        · obtain ⟨token', verified, hold', returned, -⟩ := verified
          rw [hold] at hold'
          cases hold'
          rw [raised] at returned
          cases returned
    · rcases KhUser.authenticated_of_not_verified verified false with
        ⟨token, e, hold, raised, answer⟩ | ⟨returns, answer⟩
      · rw [KhUser.honours_of_raised scope answer]
        constructor
        · exact fun other => .inr (.inr ⟨token, e, hold, raised, other⟩)
        · rintro (h | ⟨h, -⟩ | ⟨token', e', hold', raised', other⟩)
          · cases h
          · exact absurd h verified
          · rw [hold] at hold'
            cases hold'
            rw [raised] at raised'
            cases raised'
            exact other
      · refine iff_of_false (KhUser.not_honours_of_false verified scope answer) ?_
        rintro (h | ⟨h, -⟩ | ⟨token, e, hold, raised, -⟩)
        · cases h
        · exact verified h
        · obtain ⟨verified, returned⟩ := returns token hold
          rw [raised] at returned
          cases returned

/-- A user without a token passes when the exceptions are turned off. -/
theorem verifyScope_not_honoured :
    ¬ ∀ (PublicKey : Type) (env : Env PublicKey Json) (readings : Readings) (self : KhUser)
      (scope : Scope) (raiseError : Bool) (caches : Caches PublicKey),
      self.Honours
        (fun token caches => verifyToken env caches ⟨token, readings.now, readings.stored⟩)
        scope raiseError caches := by
  intro all
  let env : Env Unit Json :=
    { request := fun _ _ => .error .other, loadDerPublicKey := fun _ => .error .other,
      verify := fun _ _ _ => .error .other, lookup := fun _ => .error .recordNotFound,
      loads := fun _ => .error .valueError, now := 0, cleared := 0, fetched := 0, stored := 0 }
  have honours := all Unit env ⟨0, 0⟩ .anonymous .default false (∅, ∅)
  obtain ⟨⟨token, verified, hold, -⟩, -⟩ := honours.sound rfl
  cases hold

end KhCommon.Auth
