import Mathlib.Data.List.Induction
import Mathlib.Data.Nat.Notation

/-!
# The values of a version hub

`VersionHub` (`backend_core/live_hubs.py:44-102`, and for other payloads the worker's
`runtime/live_hubs.py:8-53`): a version that counts publishes, and the last payloads published.
A hub that was never cleared is known from the log of its publishes (`VersionHub.ofLog`), and
what `payloads_since` returns is read off that log.
-/

namespace DataForge.Wakes

/-- The items of a list with consecutive numbers. -/
def numberFrom {α : Type} : ℕ → List α → List (ℕ × α)
  | _, [] => []
  | n, a :: rest => (n, a) :: numberFrom (n + 1) rest

section NumberFrom

variable {α : Type} (n : ℕ) (l l' : List α)

@[simp] theorem length_numberFrom : (numberFrom n l).length = l.length := by
  induction l generalizing n with
  | nil => rfl
  | cons a rest ih => simp [numberFrom, ih]

theorem numberFrom_append :
    numberFrom n (l ++ l') = numberFrom n l ++ numberFrom (n + l.length) l' := by
  induction l generalizing n with
  | nil => rfl
  | cons a rest ih =>
    rw [List.cons_append, numberFrom, ih, numberFrom, List.length_cons, List.cons_append]
    congr 3
    omega

theorem drop_numberFrom (k : ℕ) :
    (numberFrom n l).drop k = numberFrom (n + k) (l.drop k) := by
  induction k generalizing n l with
  | zero => rfl
  | succ k ih =>
    cases l with
    | nil => rfl
    | cons a rest =>
      rw [numberFrom, List.drop_succ_cons, List.drop_succ_cons, ih]
      congr 1
      omega

theorem filter_numberFrom (bound : ℕ) :
    ((numberFrom (n + 1) l).filter (bound < ·.1)).map (·.2) = l.drop (bound - n) := by
  induction l generalizing n with
  | nil => simp [numberFrom]
  | cons a rest ih =>
    rw [numberFrom, List.filter_cons]
    by_cases h : bound < n + 1
    · have hz : bound - n = 0 := by omega
      have hz' : bound - (n + 1) = 0 := by omega
      have hrest := ih (n + 1)
      rw [hz', List.drop_zero] at hrest
      simp [h, hz, hrest]
    · have hs : bound - n = (bound - (n + 1)) + 1 := by omega
      rw [if_neg (by simpa using h), ih, hs, List.drop_succ_cons]

theorem mem_numberFrom {i : ℕ} {a : α} (h : l[i]? = some a) : (n + i, a) ∈ numberFrom n l := by
  induction l generalizing n i with
  | nil => cases h
  | cons b rest ih =>
    cases i with
    | zero =>
      cases h
      exact List.mem_cons_self
    | succ i =>
      have hrest := ih (n + 1) h
      rw [Nat.add_right_comm] at hrest
      exact List.mem_cons_of_mem _ hrest

end NumberFrom

/-- `_history`'s `maxlen` (line 47). -/
def historyLength : ℕ := 2048

/-- `_version` and `_history` of a `VersionHub` (lines 45-47). -/
structure VersionHub (α : Type) where
  version : ℕ
  history : List (ℕ × Option α)
deriving DecidableEq, Repr

namespace VersionHub

variable {α : Type}

/-- A new hub (lines 45-47). -/
def empty : VersionHub α := ⟨0, []⟩

/-- What `publish` does to the version and the history (lines 53-56). -/
def publish (h : VersionHub α) (payload : Option α) : VersionHub α :=
  let history := h.history ++ [(h.version + 1, payload)]
  ⟨h.version + 1, history.drop (history.length - historyLength)⟩

/-- `payloads_since` (lines 68-81). -/
def payloadsSince [DecidableEq α] (h : VersionHub α) (lastSeen : ℕ) : List (Option α) :=
  if h.version ≤ lastSeen then []
  else match h.history with
    | [] => []
    | first :: rest =>
      if lastSeen + 1 < first.1 then [((first :: rest).getLast (List.cons_ne_nil _ _)).2]
      else (((first :: rest).filter (lastSeen < ·.1)).map (·.2)).eraseDups

/-- The hub after publishes. -/
def ofLog (log : List (Option α)) : VersionHub α := log.foldl publish empty

@[simp] theorem publish_version (h : VersionHub α) (payload : Option α) :
    (h.publish payload).version = h.version + 1 := rfl

theorem ofLog_append (log payloads : List (Option α)) :
    ofLog (log ++ payloads) = payloads.foldl publish (ofLog log) := List.foldl_append

@[simp] theorem ofLog_version (log : List (Option α)) : (ofLog log).version = log.length := by
  induction log using List.reverseRec with
  | nil => rfl
  | append_singleton log payload ih => simp [ofLog_append, ih]

theorem ofLog_history (log : List (Option α)) :
    (ofLog log).history = (numberFrom 1 log).drop (log.length - historyLength) := by
  induction log using List.reverseRec with
  | nil => exact List.drop_nil.symm
  | append_singleton log payload ih =>
    have hlen : (ofLog log).history.length = log.length - (log.length - historyLength) := by
      simp [ih]
    rw [ofLog_append, List.foldl_cons, List.foldl_nil, publish]
    simp only [List.length_append, List.length_singleton, hlen, ofLog_version]
    have hdrop : (log.length - historyLength) +
        (log.length - (log.length - historyLength) + 1 - historyLength) =
        log.length + 1 - historyLength := by omega
    have hnumber : numberFrom 1 (log ++ [payload]) =
        numberFrom 1 log ++ [(log.length + 1, payload)] := by
      rw [numberFrom_append, Nat.add_comm]
      rfl
    have hkeep : log.length - historyLength ≤ (numberFrom 1 log).length := by simp
    rw [hnumber, ih, ← List.drop_append_of_le_length hkeep, List.drop_drop, hdrop]

variable {log : List (Option α)}

theorem mem_drop_of_getElem? {i n : ℕ} {payload : Option α} (h : log[i]? = some payload)
    (hn : n ≤ i) : payload ∈ log.drop n := by
  refine List.mem_of_getElem? (i := i - n) ?_
  rw [List.getElem?_drop, Nat.add_sub_of_le hn, h]

theorem mem_history_ofLog {i : ℕ} {payload : Option α} (h : log[i]? = some payload)
    (hkept : log.length ≤ i + historyLength) :
    (i + 1, payload) ∈ (ofLog log).history := by
  have hn : log.length - historyLength ≤ i := by omega
  have hi : (log.drop (log.length - historyLength))[i - (log.length - historyLength)]? =
      some payload := by
    rw [List.getElem?_drop, Nat.add_sub_of_le hn, h]
  have hmem := mem_numberFrom (1 + (log.length - historyLength)) _ hi
  have hnumber : 1 + (log.length - historyLength) + (i - (log.length - historyLength)) = i + 1 := by
    omega
  rw [hnumber] at hmem
  rw [ofLog_history, drop_numberFrom]
  exact hmem

theorem payloadsSince_ofLog [DecidableEq α] {lastSeen : ℕ}
    (h : log.length ≤ lastSeen + historyLength) :
    (ofLog log).payloadsSince lastSeen = (log.drop lastSeen).eraseDups := by
  unfold payloadsSince
  rw [ofLog_version]
  by_cases hlt : log.length ≤ lastSeen
  · rw [if_pos hlt, List.drop_eq_nil_of_le hlt]
    rfl
  · rw [if_neg hlt, ofLog_history, drop_numberFrom]
    have hkept := filter_numberFrom (log.length - historyLength)
      (log.drop (log.length - historyLength)) lastSeen
    have hdrop : log.length - historyLength + (lastSeen - (log.length - historyLength)) =
        lastSeen := by omega
    rw [List.drop_drop, hdrop] at hkept
    cases hrest : log.drop (log.length - historyLength) with
    | nil =>
      have := List.drop_eq_nil_iff.mp hrest
      rw [historyLength] at this
      omega
    | cons payload rest =>
      rw [hrest, Nat.add_comm _ 1] at hkept
      rw [numberFrom] at hkept ⊢
      dsimp only
      rw [if_neg (by omega), hkept]

end VersionHub

end DataForge.Wakes
