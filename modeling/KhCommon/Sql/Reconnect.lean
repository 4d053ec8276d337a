import KhCommon.Lib.OrderedDict
import KhCommon.Sql.Interface
import KhCommon.Sql.Query

/-! The text and the parameters that `SqlInterface.query` hands to the driver. After a
`ConnectionException` the query calls itself with the text it sent and the parameters
it had converted already, so that these are converted once more. `KhCommon.Sql.query`
is what is left of this when texts and parameters are forgotten. -/

namespace KhCommon.Sql

open Transactions

variable {C P R : Type} [DecidableEq C]

/-- What the interpreter says of values: their classes, and how `list` and `Binary` convert. -/
structure Runtime (C P : Type) where
  typeOf : P → C
  mro : C → List C
  tuple : C
  bytes : C
  list : P → Except Fault P
  binary : P → Except Fault P

structure SqlInterface (C P : Type) where
  runtime : Runtime C P
  conversions : OrderedDict C (P → Except Fault P)

def Attempt.preparing (a : Attempt R) (prepare : Except Fault Unit) : Attempt R :=
  { a with prepare := prepare }

@[simp] theorem Attempt.preparing_prepare (a : Attempt R) (prepare : Except Fault Unit) :
    (a.preparing prepare).prepare = prepare := rfl

@[simp] theorem Attempt.preparing_body (a : Attempt R) (prepare : Except Fault Unit)
    (commit : Bool) (fetch : Fetch) :
    (a.preparing prepare).body commit fetch = a.body commit fetch :=
  rfl

namespace SqlInterface

/-- `{ tuple: list, bytes: Binary, **conversions }`. -/
def init (runtime : Runtime C P) (conversions : OrderedDict C (P → Except Fault P)) :
    SqlInterface C P :=
  ⟨runtime, ((∅ : OrderedDict C (P → Except Fault P)).assign runtime.tuple runtime.list
    |>.assign runtime.bytes runtime.binary).update conversions.items⟩

variable (self : SqlInterface C P)

def convertItem (item : P) : Except Fault P :=
  match (self.runtime.mro (self.runtime.typeOf item)).findSome? self.conversions.get? with
  | some convert => convert item
  | none => .ok item

/-- `tuple(map(self._convert_item, params))`. -/
def convertAll (params : List P) : Except Fault (List P) := params.mapM self.convertItem

/-- One pass through `query` and the passes of the calls it makes of itself: what each has ready for
`cur.execute`, and the effects and the answer of them all. `attempt n` is how the driver answers
with `n` retries left. -/
def passes (commit : Bool) (fetch : Fetch) (attempt : ℕ → Attempt R) (text : String) :
    (retries : ℕ) → (params : List P) →
      List (Except Fault (String × List P)) × (List Effect × Except Fault (Fetched R))
  | 0, params =>
    let converted := self.convertAll params
    let a := (attempt 0).preparing (converted.map fun _ => ())
    ([converted.map (text, ·)], a.run commit fetch none)
  | retries + 1, params =>
    let converted := self.convertAll params
    let a := (attempt (retries + 1)).preparing (converted.map fun _ => ())
    match converted, (a.body commit fetch).2 with
    | .ok params, .error .connection =>
      let (sent, again) := passes commit fetch attempt text retries params
      (.ok (text, params) :: sent, a.run commit fetch (some again))
    | _, _ => ([converted.map (text, ·)], a.run commit fetch none)

end SqlInterface

inductive Source (V : Type)
  | text (sql : String)
  | query (query : Query V)

namespace SqlInterface

variable {V : Type} (self : SqlInterface C (Param V))

/-- `sql, params = sql.build()` for a `Query`; none when that raises. -/
def built (sql : Source V) (params : List (Param V)) :
    Option (String × List (Param V)) :=
  match sql with
  | .text sql => some (sql, params)
  | .query query => query.build

def query (sql : Source V) (params : List (Param V)) (commit : Bool) (fetch : Fetch)
    (maxretry : ℤ) (attempt : ℕ → Attempt R) :
    List (Except Fault (String × List (Param V))) × (List Effect × Except Fault (Fetched R)) :=
  match built sql params with
  | some (text, params) =>
    self.passes commit fetch attempt text (maxretry - 1).toNat params
  | none =>
    ([], ((attempt (maxretry - 1).toNat).preparing (.error .other)).run commit fetch none)

end SqlInterface

/-! ## Forgetting texts and parameters -/

variable {commit : Bool} {fetch : Fetch} {attempt : ℕ → Attempt R}

theorem run_without_again {a : Attempt R}
    (h : (∃ fault, a.prepare = .error fault) ∨ (a.body commit fetch).2 ≠ .error .connection)
    (again : Option (List Effect × Except Fault (Fetched R))) :
    a.run commit fetch again = a.run commit fetch none := by
  rcases hprepare : a.prepare with fault | ⟨⟩
  · simp only [Attempt.run, hprepare]
  · have answer : (a.body commit fetch).2 ≠ .error .connection := by
      refine h.resolve_left ?_
      rintro ⟨fault, raised⟩
      rw [hprepare] at raised
      cases raised
    rcases hbody : a.body commit fetch with ⟨done, fault | value⟩
    · rw [hbody] at answer
      cases fault with
      | connection => exact absurd rfl answer
      | unboundLocal => simp only [Attempt.run, hprepare, hbody]
      | other => simp only [Attempt.run, hprepare, hbody]
    · simp only [Attempt.run, hprepare, hbody]

theorem attempts_congr {attempt attempt' : ℕ → Attempt R} {retries : ℕ}
    (same : ∀ n ≤ retries, attempt n = attempt' n) :
    attempts commit fetch attempt retries = attempts commit fetch attempt' retries := by
  induction retries with
  | zero => rw [attempts, attempts, same 0 le_rfl]
  | succ retries ih =>
    rw [attempts, attempts, same _ le_rfl, ih fun n hn => same n (Nat.le_succ_of_le hn)]

namespace SqlInterface

variable (self : SqlInterface C P) (text : String) (retries : ℕ) {params converted : List P}

theorem passes_last (h : (∃ fault, self.convertAll params = .error fault) ∨
      ((attempt (retries + 1)).body commit fetch).2 ≠ .error .connection) :
    self.passes commit fetch attempt text (retries + 1) params =
      ([(self.convertAll params).map (text, ·)],
        ((attempt (retries + 1)).preparing ((self.convertAll params).map fun _ => ())).run commit
          fetch none) := by
  rw [passes]
  rcases hconverted : self.convertAll params with fault | converted
  · rfl
  · have answer := h.resolve_left (by simp [hconverted])
    rcases hbody : ((attempt (retries + 1)).body commit fetch).2 with fault | value
    · rw [hbody] at answer
      cases fault with
      | connection => exact absurd rfl answer
      | unboundLocal => simp only [Attempt.preparing_body, hbody]
      | other => simp only [Attempt.preparing_body, hbody]
    · simp only [Attempt.preparing_body, hbody]

theorem passes_again (hconverted : self.convertAll params = .ok converted)
    (lost : ((attempt (retries + 1)).body commit fetch).2 = .error .connection) :
    self.passes commit fetch attempt text (retries + 1) params =
      (.ok (text, converted) :: (self.passes commit fetch attempt text retries converted).1,
        ((attempt (retries + 1)).preparing (.ok ())).run commit fetch
          (some (self.passes commit fetch attempt text retries converted).2)) := by
  rw [passes, hconverted]
  simp only [Attempt.preparing_body, lost]
  rfl

/-- The effects and the answer are those of `attempts`, for a driver that answers the same. -/
theorem passes_refines (params : List P) : ∃ prepare : ℕ → Except Fault Unit,
    (self.passes commit fetch attempt text retries params).2 =
      attempts commit fetch (fun n => (attempt n).preparing (prepare n)) retries := by
  induction retries generalizing params with
  | zero => exact ⟨fun _ => (self.convertAll params).map fun _ => (), rfl⟩
  | succ retries ih =>
    by_cases last : (∃ fault, self.convertAll params = .error fault) ∨
        ((attempt (retries + 1)).body commit fetch).2 ≠ .error .connection
    · refine ⟨fun _ => (self.convertAll params).map fun _ => (), ?_⟩
      have ends : (∃ fault, (self.convertAll params).map (fun _ => ()) = .error fault) ∨
          ((attempt (retries + 1)).body commit fetch).2 ≠ .error .connection := by
        refine last.imp_left ?_
        rintro ⟨fault, raised⟩
        exact ⟨fault, by rw [raised]; rfl⟩
      rw [passes_last self text retries last, attempts]
      exact (run_without_again ends _).symm
    · rw [not_or, not_not] at last
      rcases hconverted : self.convertAll params with fault | converted
      · exact absurd ⟨fault, hconverted⟩ last.1
      obtain ⟨prepare, later⟩ := ih converted
      refine ⟨Function.update prepare (retries + 1) (.ok ()), ?_⟩
      have kept : attempts commit fetch
            (fun n => (attempt n).preparing (Function.update prepare (retries + 1) (.ok ()) n))
            retries =
          attempts commit fetch (fun n => (attempt n).preparing (prepare n)) retries := by
        refine attempts_congr fun n hn => ?_
        rw [Function.update_of_ne (Nat.ne_of_lt (Nat.lt_succ_of_le hn))]
      rw [passes_again self text retries hconverted last.2, attempts, kept, ← later,
        Function.update_self]

/-! ## Converting once -/

/-- The first class of the MRO that the table knows converts the item; without one it stays. -/
def ConvertedOnce (item converted : P) : Prop :=
  (∃ before cls after convert,
    self.runtime.mro (self.runtime.typeOf item) = before ++ cls :: after ∧
      (∀ c ∈ before, c ∉ self.conversions) ∧ self.conversions.get? cls = some convert ∧
      convert item = .ok converted) ∨
    ((∀ c ∈ self.runtime.mro (self.runtime.typeOf item), c ∉ self.conversions) ∧ converted = item)

variable {self}

theorem convertItem_eq_ok {item converted : P} :
    self.convertItem item = .ok converted ↔ self.ConvertedOnce item converted := by
  rw [convertItem, ConvertedOnce]
  cases found : (self.runtime.mro (self.runtime.typeOf item)).findSome? self.conversions.get? with
  | none =>
    have absent : ∀ c ∈ self.runtime.mro (self.runtime.typeOf item), c ∉ self.conversions :=
      fun c hc => OrderedDict.get?_eq_none_iff.mp (List.findSome?_eq_none_iff.mp found c hc)
    constructor
    · rintro ⟨⟩
      exact .inr ⟨absent, rfl⟩
    · rintro (⟨before, cls, after, convert, split, -, held, -⟩ | ⟨-, rfl⟩)
      · have known := OrderedDict.mem_iff_get?.mpr ⟨convert, held⟩
        exact absurd known (absent cls (by rw [split]; simp))
      · rfl
  | some convert =>
    obtain ⟨before, cls, after, split, held, earlier⟩ := List.findSome?_eq_some_iff.mp found
    have unknown : ∀ c ∈ before, c ∉ self.conversions :=
      fun c hc => OrderedDict.get?_eq_none_iff.mp (earlier c hc)
    constructor
    · intro done
      exact .inl ⟨before, cls, after, convert, split, unknown, held, done⟩
    · rintro (⟨before', cls', after', convert', split', unknown', held', done⟩ | ⟨none, -⟩)
      · have same : (self.runtime.mro (self.runtime.typeOf item)).findSome? self.conversions.get? =
            some convert' :=
          List.findSome?_eq_some_iff.mpr ⟨before', cls', after', split', held',
            fun c hc => OrderedDict.get?_eq_none_iff.mpr (unknown' c hc)⟩
        rw [found] at same
        cases same
        exact done
      · have known := OrderedDict.mem_iff_get?.mpr ⟨convert, held⟩
        exact absurd known (none cls (by rw [split]; simp))

theorem convertAll_eq_ok :
    self.convertAll params = .ok converted ↔ List.Forall₂ self.ConvertedOnce params converted := by
  induction params generalizing converted with
  | nil =>
    rw [List.forall₂_nil_left_iff, convertAll, List.mapM_nil]
    exact ⟨fun h => (Except.ok.inj h).symm, fun h => h ▸ rfl⟩
  | cons item params ih =>
    rw [List.forall₂_cons_left_iff]
    simp only [← ih, ← convertItem_eq_ok, convertAll, List.mapM_cons]
    rcases self.convertItem item with fault | q
    · exact ⟨nofun, nofun⟩
    rcases params.mapM self.convertItem with fault | qs
    · exact ⟨nofun, nofun⟩
    · constructor
      · rintro ⟨⟩
        exact ⟨q, qs, rfl, rfl, rfl⟩
      · rintro ⟨_, _, ⟨⟩, ⟨⟩, rfl⟩
        rfl

theorem convertAll_eq_self : self.convertAll params = .ok params ↔
    ∀ item ∈ params, self.convertItem item = .ok item := by
  rw [convertAll_eq_ok, List.forall₂_same]
  simp only [convertItem_eq_ok]

theorem passes_head (self : SqlInterface C P) (commit : Bool) (fetch : Fetch)
    (attempt : ℕ → Attempt R) (text : String) (retries : ℕ) (params : List P) :
    ∃ later, (self.passes commit fetch attempt text retries params).1 =
      (self.convertAll params).map (text, ·) :: later := by
  cases retries with
  | zero => exact ⟨[], rfl⟩
  | succ retries =>
    by_cases last : (∃ fault, self.convertAll params = .error fault) ∨
        ((attempt (retries + 1)).body commit fetch).2 ≠ .error .connection
    · exact ⟨[], by rw [passes_last self text retries last]⟩
    · rw [not_or, not_not] at last
      rcases hconverted : self.convertAll params with fault | converted
      · exact absurd ⟨fault, hconverted⟩ last.1
      · exact ⟨_, by rw [passes_again self text retries hconverted last.2]; rfl⟩

theorem passes_of_fixed (text : String) (retries : ℕ)
    (fixed : self.convertAll converted = .ok converted) :
    ∀ pass ∈ (self.passes commit fetch attempt text retries converted).1,
      pass = .ok (text, converted) := by
  induction retries with
  | zero =>
    rw [passes, fixed]
    exact fun pass hpass => List.mem_singleton.mp hpass
  | succ retries ih =>
    by_cases lost : ((attempt (retries + 1)).body commit fetch).2 = .error .connection
    · rw [passes_again self text retries fixed lost]
      exact List.forall_mem_cons.mpr ⟨rfl, ih⟩
    · rw [passes_last self text retries (.inr lost), fixed]
      exact fun pass hpass => List.mem_singleton.mp hpass

theorem passes_same_iff (commit : Bool) (fetch : Fetch) (attempt : ℕ → Attempt R)
    (text : String) (retries : ℕ)
    (hconverted : self.convertAll params = .ok converted) :
    (∀ pass ∈ (self.passes commit fetch attempt text retries params).1,
        pass = .ok (text, converted)) ↔
      retries = 0 ∨ ((attempt retries).body commit fetch).2 ≠ .error .connection ∨
        self.convertAll converted = .ok converted := by
  cases retries with
  | zero =>
    rw [passes, hconverted]
    exact iff_of_true (fun pass hpass => List.mem_singleton.mp hpass) (.inl rfl)
  | succ retries =>
    by_cases lost : ((attempt (retries + 1)).body commit fetch).2 = .error .connection
    · rw [passes_again self text retries hconverted lost, List.forall_mem_cons]
      constructor
      · rintro ⟨-, again⟩
        obtain ⟨later, head⟩ := passes_head self commit fetch attempt text retries converted
        have second := again _ (by rw [head]; exact List.mem_cons_self)
        rcases twice : self.convertAll converted with fault | converted'
        · rw [twice] at second
          cases second
        · rw [twice] at second
          cases second
          exact .inr (.inr rfl)
      · rintro (h | h | fixed)
        · cases h
        · exact absurd lost h
        · exact ⟨rfl, passes_of_fixed text retries fixed⟩
    · rw [passes_last self text retries (.inr lost), hconverted]
      exact iff_of_true (fun pass hpass => List.mem_singleton.mp hpass) (.inr (.inl lost))

end SqlInterface

/-- Every pass of a query has the text and the parameters converted once ready for the driver,
exactly if the query makes no call of itself or a second conversion of the parameters changes none
of them. -/
theorem query_transparent_iff {V : Type} (self : SqlInterface C (Param V)) (sql : Source V)
    (params : List (Param V)) (commit : Bool) (fetch : Fetch) (maxretry : ℤ)
    (attempt : ℕ → Attempt R) :
    (∀ text params' converted, SqlInterface.built sql params = some (text, params') →
      List.Forall₂ self.ConvertedOnce params' converted →
        ∀ pass ∈ (self.query sql params commit fetch maxretry attempt).1,
          pass = .ok (text, converted)) ↔
      maxretry ≤ 1 ∨
        ((attempt (maxretry - 1).toNat).body commit fetch).2 ≠ .error .connection ∨
        ∀ text params' converted, SqlInterface.built sql params = some (text, params') →
          self.convertAll params' = .ok converted →
            ∀ item ∈ converted, self.convertItem item = .ok item := by
  rcases hbuilt : SqlInterface.built sql params with _ | ⟨text, params'⟩
  · exact iff_of_true nofun (.inr (.inr nofun))
  have sent : (self.query sql params commit fetch maxretry attempt).1 =
      (self.passes commit fetch attempt text (maxretry - 1).toNat params').1 := by
    rw [SqlInterface.query, hbuilt]
  rcases hconverted : self.convertAll params' with fault | converted
  · refine iff_of_true ?_ (.inr (.inr ?_))
    · rintro text' params'' converted ⟨⟩ once
      rw [← SqlInterface.convertAll_eq_ok, hconverted] at once
      cases once
    · rintro text' params'' converted ⟨⟩ done
      rw [hconverted] at done
      cases done
  · have no_retry : (maxretry - 1).toNat = 0 ↔ maxretry ≤ 1 := by omega
    have same := SqlInterface.passes_same_iff commit fetch attempt text (maxretry - 1).toNat
      hconverted
    rw [no_retry, SqlInterface.convertAll_eq_self, ← sent] at same
    constructor
    · intro transparent
      have all := transparent text params' converted rfl
        (SqlInterface.convertAll_eq_ok.mp hconverted)
      refine (same.mp all).imp_right (Or.imp_right fun fixed => ?_)
      rintro text' params'' converted' ⟨⟩ done
      rw [hconverted] at done
      cases done
      exact fixed
    · rintro condition text' params'' converted' ⟨⟩ once
      rw [← SqlInterface.convertAll_eq_ok, hconverted] at once
      cases once
      exact same.mpr (condition.imp_right (Or.imp_right fun fixed =>
        fixed text params' converted rfl hconverted))

/-- A table that adds one to every integer, a statement with the parameter 1, and a connection that
is lost once: the second pass has 3 ready. -/
theorem query_not_transparent :
    ¬ ∀ (runtime : Runtime String (Param ℕ))
      (conversions : OrderedDict String (Param ℕ → Except Fault (Param ℕ))) (sql : Source ℕ)
      (params : List (Param ℕ)) (commit : Bool) (fetch : Fetch) (maxretry : ℤ)
      (attempt : ℕ → Attempt Unit), (∀ n, (attempt n).cursor = .ok ()) →
      ∀ text params' converted, SqlInterface.built sql params = some (text, params') →
        List.Forall₂ (SqlInterface.init runtime conversions).ConvertedOnce params' converted →
          ∀ pass ∈ ((SqlInterface.init runtime conversions).query sql params commit fetch maxretry
              attempt).1,
            pass = .ok (text, converted) := by
  intro all
  let runtime : Runtime String (Param ℕ) :=
    ⟨fun _ => "int", fun _ => ["int", "object"], "tuple", "bytes", .ok, .ok⟩
  let addOne : Param ℕ → Except Fault (Param ℕ)
    | .value n => .ok (.value (n + 1))
    | .records n => .ok (.records (n + 1))
  let interface := SqlInterface.init runtime ((∅ : OrderedDict String _).assign "int" addOne)
  have once : interface.ConvertedOnce (.value 1) (.value 2) :=
    SqlInterface.convertItem_eq_ok.mp rfl
  let lost : Attempt Unit :=
    ⟨false, true, .ok (), .ok (), .error .connection, .ok (), .ok none, .ok [], true, .ok (),
      .ok ()⟩
  let quiet : Attempt Unit := { lost with execute := .ok () }
  have same := all runtime ((∅ : OrderedDict String _).assign "int" addOne) (.text "select %s")
    [.value 1] false .nothing 2 (fun n => if n = 0 then quiet else lost)
    (fun n => by split <;> rfl) "select %s" [.value 1] [.value 2] rfl (.cons once .nil)
    (.ok ("select %s", [.value 3]))
  exact absurd (same (.tail _ (.head _))) nofun

end KhCommon.Sql
