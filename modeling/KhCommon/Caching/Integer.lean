import KhCommon.Lib.Machine
import KhCommon.Utilities
import Mathlib.Data.List.Induction

/-! `kh_common.caching.integer.Integer`: one counter on the cluster behind a local
copy with a TTL. `set` renews the copy and `get` takes one when none is held, but
`increment` reaches the cluster only, so a copy taken before an increment hides it
until it expires. The cluster adds to the `'int'` bin or creates it; the TTL of the
record and the retry policy have no counterpart. -/

namespace KhCommon

open Machine

structure Integer where
  key : String
  localTTL : ℚ

namespace Integer

inductive Exc
  | recordNotFound -- `aerospike.exception.RecordNotFound`
  | clientError -- any other exception of the client
  deriving DecidableEq

/-- The local cache, and the `'int'` bin of the record on the cluster. -/
structure State where
  cache : Cache String ℤ
  record : Option ℤ

def start : State := ⟨∅, none⟩

variable (self : Integer)

def set (raises : Bool) (s : State) (value : ℤ) (t : ℚ) : Except Exc Unit × State :=
  if raises then (.error .clientError, s) else
    (.ok (), ⟨s.cache.assign self.key (t + self.localTTL, value), some value⟩)

def _get (raises : Bool) (s : State) (t : ℚ) : Except Exc ℤ × State :=
  match s.cache.get? self.key with
  | some (_, data) => (.ok data, s)
  | none =>
    if raises then (.error .clientError, s) else
      match s.record with
      | some data =>
        (.ok data, { s with cache := s.cache.assign self.key (t + self.localTTL, data) })
      | none => (.error .recordNotFound, s)

def get (raises : Bool) (s : State) (now t : ℚ) : Except Exc ℤ × State :=
  self._get raises { s with cache := clearCache now s.cache } t

/-- `get_async`: nothing is awaited while the lock is held, nor between its release and `_get`. -/
def getAsync (raises : Bool) (s : State) (now t : ℚ) : Except Exc ℤ × State :=
  self._get raises { s with cache := clearCache now s.cache } t

def increment (raises : Bool) (s : State) (value : ℤ) : Except Exc Unit × State :=
  if raises then (.error .clientError, s) else
    (.ok (), { s with record := some (s.record.getD 0 + value) })

inductive Op
  | set (value : ℤ)
  | increment (value : ℤ)
  | get
  | getAsync

/-- One call: `now` is the reading of `__clear_cache__`, `t` the one for what is stored. -/
structure Call where
  op : Op
  now : ℚ
  t : ℚ
  raises : Bool

def Call.reads (call : Call) : Prop := call.op = .get ∨ call.op = .getAsync

def step (s : State) (call : Call) : Except Exc (Option ℤ) × State :=
  match call.op with
  | .set value =>
    let (result, s) := self.set call.raises s value call.t
    (result.map fun _ => none, s)
  | .increment value =>
    let (result, s) := increment call.raises s value
    (result.map fun _ => none, s)
  | .get =>
    let (result, s) := self.get call.raises s call.now call.t
    (result.map some, s)
  | .getAsync =>
    let (result, s) := self.getAsync call.raises s call.now call.t
    (result.map some, s)

/-! ## What is due -/

/-- The local copy in hindsight: when it expires, and what `increment` added since it was taken. -/
structure Copy where
  expires : ℚ
  missed : ℤ

/-- What the calls so far have counted, none while there is no record, and the copy they left. -/
structure Ledger where
  count : Option ℤ
  copy : Option Copy

def Ledger.next (localTTL : ℚ) (l : Ledger) (call : Call) : Ledger :=
  match call.op with
  | .set value => ⟨some value, some ⟨call.t + localTTL, 0⟩⟩
  | .increment value =>
    ⟨some (l.count.getD 0 + value), l.copy.map fun c => { c with missed := c.missed + value }⟩
  | _ =>
    ⟨l.count, (l.copy.filter fun c => call.now ≤ c.expires).or
      (l.count.map fun _ => ⟨call.t + localTTL, 0⟩)⟩

def ledger (localTTL : ℚ) (calls : List Call) : Ledger :=
  calls.foldl (Ledger.next localTTL) ⟨none, none⟩

def Counts (before : List Call) (call : Call) : Prop :=
  call.reads → ∀ n, (ledger self.localTTL before).count = some n →
    (self.step (run self.step start before) call).1 = .ok (some n)

def CopyCurrent (before : List Call) (call : Call) : Prop :=
  call.reads → ∀ c, (ledger self.localTTL before).copy = some c → call.now ≤ c.expires →
    c.missed = 0

/-! ## The state after a run -/

def holding : Option (ℚ × ℤ) → Cache String ℤ
  | none => ∅
  | some entry => (∅ : Cache String ℤ).assign self.key entry

@[simp] theorem get?_holding (entry : Option (ℚ × ℤ)) :
    (self.holding entry).get? self.key = entry := by
  cases entry <;> simp [holding]

@[simp] theorem assign_holding (entry : Option (ℚ × ℤ)) (new : ℚ × ℤ) :
    (self.holding entry).assign self.key new = self.holding (some new) := by
  cases entry with
  | none => rfl
  | some old =>
    apply OrderedDict.ext
    have one : ((∅ : Cache String ℤ).assign self.key old).items = [(self.key, old)] := rfl
    rw [holding, OrderedDict.assign_items_of_mem (by simp [OrderedDict.mem_def, one]), one]
    simp [OrderedDict.overwrite, holding, OrderedDict.assign, OrderedDict.mem_def]

@[simp] theorem clearCache_holding (now : ℚ) (entry : Option (ℚ × ℤ)) :
    clearCache now (self.holding entry) = self.holding (entry.filter fun e => now ≤ e.1) := by
  rw [clearCache_eq_purge]
  apply OrderedDict.ext
  rcases entry with _ | ⟨exp, data⟩
  · rfl
  · have one : (self.holding (some (exp, data))).items = [(self.key, exp, data)] := rfl
    rw [ExpiringDict.items_purge, one, Option.filter_some]
    by_cases stale : exp < now
    · simp [stale, not_le.mpr stale, holding]
    · simp [stale, not_lt.mp stale, one]

def describes (l : Ledger) : State :=
  ⟨self.holding (l.copy.map fun c => (c.expires, l.count.getD 0 - c.missed)), l.count⟩

def Ledger.fresh (l : Ledger) (now : ℚ) : Option Copy := l.copy.filter fun c => now ≤ c.expires

variable {self}

theorem clear_describes (l : Ledger) (now : ℚ) :
    clearCache now (self.describes l).cache =
      self.holding ((l.fresh now).map fun c => (c.expires, l.count.getD 0 - c.missed)) := by
  rw [describes, clearCache_holding, Ledger.fresh, Option.filter_map]
  rfl

theorem get_describes (l : Ledger) (now t : ℚ) :
    self.get false (self.describes l) now t =
      (match l.fresh now, l.count with
        | some c, n => .ok (n.getD 0 - c.missed)
        | none, some n => .ok n
        | none, none => .error .recordNotFound,
      self.describes
        ⟨l.count, (l.fresh now).or (l.count.map fun _ => ⟨t + self.localTTL, 0⟩)⟩) := by
  rw [get, clear_describes, _get]
  rcases l.fresh now with _ | c
  · rcases hn : l.count with _ | n
    · simp [describes, hn]
    · simp [describes, hn]
  · simp [describes]

theorem getAsync_eq_get : self.getAsync = self.get := rfl

theorem step_describes (l : Ledger) {call : Call} (quiet : call.raises = false) :
    (self.step (self.describes l) call).2 = self.describes (l.next self.localTTL call) := by
  cases hop : call.op with
  | set value => simp [step, hop, set, quiet, describes, Ledger.next]
  | increment value =>
    -- the copy keeps its value: the count and what the copy missed grow alike
    simp only [step, hop, increment, quiet, describes, Ledger.next, Option.map_map,
      Function.comp_def, Option.getD_some, add_sub_add_right_eq_sub]
    rfl
  | get => simp [step, hop, quiet, get_describes, Ledger.next, Ledger.fresh]
  | getAsync => simp [step, hop, quiet, getAsync_eq_get, get_describes, Ledger.next, Ledger.fresh]

theorem run_describes (calls : List Call) (quiet : ∀ call ∈ calls, call.raises = false) :
    run self.step start calls = self.describes (ledger self.localTTL calls) := by
  induction calls using List.reverseRecOn with
  | nil => rfl
  | append_singleton calls call ih =>
    rw [List.forall_mem_append, List.forall_mem_singleton] at quiet
    rw [run_append, ih quiet.1, run_cons, run_nil, step_describes _ quiet.2, ledger, ledger,
      List.foldl_append]
    rfl

theorem ledger_copy_known (localTTL : ℚ) (calls : List Call) {c : Copy}
    (h : (ledger localTTL calls).copy = some c) : ∃ n, (ledger localTTL calls).count = some n := by
  induction calls using List.reverseRecOn generalizing c with
  | nil => cases h
  | append_singleton calls call ih =>
    rw [ledger, List.foldl_append] at h ⊢
    change ((ledger localTTL calls).next localTTL call).copy = some c at h
    show ∃ n, ((ledger localTTL calls).next localTTL call).count = some n
    rcases hn : (ledger localTTL calls).count with _ | n
    · have none : (ledger localTTL calls).copy = none := by
        rw [Option.eq_none_iff_forall_ne_some]
        intro c' hc'
        obtain ⟨n, h⟩ := ih hc'
        rw [hn] at h
        cases h
      cases hop : call.op <;> simp [Ledger.next, hop, hn, none] at h ⊢
    · cases hop : call.op <;> simp [Ledger.next, hop, hn]

theorem counts_iff {before : List Call} (quiet : ∀ call ∈ before, call.raises = false)
    {call : Call} (succeeds : call.raises = false) :
    self.Counts before call ↔ self.CopyCurrent before call := by
  refine forall_congr' fun reads => ?_
  have result : (self.step (run self.step start before) call).1 =
      (self.get false (self.describes (ledger self.localTTL before)) call.now call.t).1.map
        some := by
    rw [run_describes before quiet]
    rcases reads with hop | hop <;> simp [step, hop, succeeds, getAsync_eq_get]
  have known {c} := ledger_copy_known self.localTTL before (c := c)
  rw [result, get_describes]
  generalize ledger self.localTTL before = l at known
  rcases hc : l.copy with _ | c
  · rcases hn : l.count with _ | n <;> simp [Ledger.fresh, hc, Except.map]
  · obtain ⟨n, hn⟩ := known hc
    by_cases fresh : call.now ≤ c.expires
    · have left : l.fresh call.now = some c := by simp [Ledger.fresh, hc, fresh]
      simp [left, hn, fresh, Except.map]
    · have gone : l.fresh call.now = none := by simp [Ledger.fresh, hc, not_le.mp fresh]
      simp [gone, hn, fresh, Except.map]

/-- In a run whose remote calls succeed every read returns what was counted if and only if at
each read the copy still held has missed increments that sum to zero. -/
theorem reads_count_iff (self : Integer) (calls : List Call)
    (quiet : ∀ call ∈ calls, call.raises = false) :
    Throughout self.Counts calls ↔ Throughout self.CopyCurrent calls := by
  refine throughout_congr fun before call inRun => ?_
  have inCalls := inRun.subset
  exact counts_iff (fun c hc => quiet c (inCalls (List.mem_append_left _ hc)))
    (quiet call (inCalls (List.mem_append_right _ List.mem_cons_self)))

theorem reads_count_expired : Throughout (Counts ⟨"an_int", 1⟩)
    [⟨.set 100, 0, 0, false⟩, ⟨.increment 1, 1, 1, false⟩, ⟨.get, 3, 3, false⟩] := by
  refine (reads_count_iff _ _ (by decide)).mpr ?_
  simp only [throughout_cons, CopyCurrent, Call.reads, ledger, Ledger.next, List.foldl]
  norm_num
  exact nofun

/-- `set 100` at 0 is held until 10, so the read at 2 misses the increment made at 1. -/
theorem read_misses_increment :
    ¬ ∀ self : Integer, 0 ≤ self.localTTL → ∀ (t₀ : ℚ) (calls : List Call),
      Clocked Call.now Call.t t₀ calls → (∀ call ∈ calls, call.raises = false) →
        Throughout self.Counts calls := by
  intro all
  have read := all ⟨"an_int", 10⟩ (by decide) 0
    [⟨.set 100, 0, 0, false⟩, ⟨.increment 1, 1, 1, false⟩, ⟨.get, 2, 2, false⟩]
    (by norm_num [Clocked]) (by decide)
    [⟨.set 100, 0, 0, false⟩, ⟨.increment 1, 1, 1, false⟩] _ List.prefix_rfl
  exact absurd (read (.inl rfl) 101 rfl) (by decide +kernel)

end Integer

end KhCommon
