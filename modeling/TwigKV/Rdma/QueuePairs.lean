import Mathlib.Data.List.GetD
import Mathlib.Data.List.Range

/-! # The table of queue pairs (`RDMAData::connect`)

A constructor that shares one buffer per server calls `connect` once for each port, and `connect`
appends one queue pair for each server. The queue pair at `port * n + server` therefore reaches the
region that server `server` registered on port number `port` (`connectQps_getElem?`). -/

namespace TwigKV.Rdma

/-- What a queue pair reaches: the region a server registered on one of the ports, counted from the
first one. -/
structure Region where
  /-- The server. -/
  server : ℕ
  /-- The port number, counted from the first port of the constructor. -/
  port : ℕ
deriving DecidableEq, Repr

/-- One call of `connect`: a queue pair to every server on the given port. -/
def connect (numServers port : ℕ) (qps : List Region) : List Region :=
  qps ++ (List.range numServers).map fun server => ⟨server, port⟩

/-- `connect_qps` after one `connect` call for each of the ports `0..numServers - 1`. -/
def connectQps (numServers : ℕ) : List Region :=
  (List.range numServers).foldl (fun qps port => connect numServers port qps) []

/-- The table after the first calls. -/
theorem foldl_connect_range (numServers ports : ℕ) :
    (List.range ports).foldl (fun qps port => connect numServers port qps) []
      = (List.range ports).flatMap fun port =>
          (List.range numServers).map fun server => ⟨server, port⟩ := by
  induction ports with
  | zero => rfl
  | succ ports ih =>
      rw [List.range_succ, List.foldl_append, ih, List.flatMap_append, List.foldl_cons,
        List.foldl_nil, connect, List.flatMap_singleton]

/-- Every call adds as many queue pairs as there are servers. -/
theorem length_flatMap_connect (numServers ports : ℕ) :
    ((List.range ports).flatMap fun port =>
      (List.range numServers).map fun server => (⟨server, port⟩ : Region)).length
      = ports * numServers := by
  induction ports with
  | zero => rw [Nat.zero_mul]; rfl
  | succ ports ih =>
      rw [List.range_succ, List.flatMap_append, List.length_append, ih, List.flatMap_singleton,
        List.length_map, List.length_range, Nat.succ_mul]

/-- **The layout of the table**: the queue pair at `port * n + server` reaches the region of
`server` on `port`. -/
theorem connectQps_getElem? {numServers port server : ℕ} (hport : port < numServers)
    (hserver : server < numServers) :
    (connectQps numServers)[port * numServers + server]? = some ⟨server, port⟩ := by
  have hprefix : ∀ ports, port < ports →
      ((List.range ports).flatMap fun port =>
        (List.range numServers).map fun server => (⟨server, port⟩ : Region))[
          port * numServers + server]? = some ⟨server, port⟩ := by
    intro ports hlt
    induction ports with
    | zero => exact absurd hlt (Nat.not_lt_zero port)
    | succ ports ih =>
        rw [List.range_succ, List.flatMap_append, List.flatMap_singleton]
        rcases Nat.lt_succ_iff_lt_or_eq.mp hlt with hbefore | rfl
        · -- the earlier calls already contain the entry
          have hin : port * numServers + server < ports * numServers := by
            have hle : (port + 1) * numServers ≤ ports * numServers :=
              Nat.mul_le_mul_right _ hbefore
            rw [Nat.succ_mul] at hle
            omega
          rw [List.getElem?_append_left (by rw [length_flatMap_connect]; exact hin)]
          exact ih hbefore
        · rw [List.getElem?_append_right (by rw [length_flatMap_connect]; omega),
            length_flatMap_connect, Nat.add_sub_cancel_left, List.getElem?_map,
            List.getElem?_range hserver]
          rfl
  rw [connectQps, foldl_connect_range]
  exact hprefix numServers hport

/-- The table has no other entries in a row. -/
theorem eq_of_connectQps_getElem? {numServers port server : ℕ} {region : Region}
    (hserver : server < numServers)
    (h : (connectQps numServers)[port * numServers + server]? = some region) :
    region = ⟨server, port⟩ := by
  have hport : port < numServers := by
    by_contra hge
    have hlen : (connectQps numServers).length = numServers * numServers := by
      rw [connectQps, foldl_connect_range, length_flatMap_connect]
    have hle : numServers * numServers ≤ port * numServers :=
      Nat.mul_le_mul_right _ (Nat.not_lt.mp hge)
    rw [List.getElem?_eq_none (by omega)] at h
    exact absurd h (by simp)
  rw [connectQps_getElem? hport hserver, Option.some.injEq] at h
  exact h.symm

end TwigKV.Rdma
