import Hsed.EndToEnd.Scan

/-!
# `EndToEnd.Stats` — STATS against SCAN

Both commands walk the same descriptors; one builds entries and lets `handle_scan` add them up after the
sort, the other adds up per worker. A tally does not depend on the order (`tally_perm`), so both report
the tally of the entries in pid order.
-/

namespace Hsed
namespace EndToEnd

open CLib Scan Wire Server

/-- The order of the entries does not matter to their tally. -/
theorem tally_perm {es fs : List Entry} (h : es.Perm fs) : tally es = tally fs := by
  have hsum := (h.map (·.size)).sum_eq
  rw [tally, tally, h.length_eq, hsum]

theorem hsedScanStats_eq {snap : Snapshot} {pids : List Int} (hg : gatherPids (fun _ => true) snap = some pids)
    (minSize : Int) (uidFilter : Nat) (numThreads : Int) :
    hsedScanStats snap Alloc.ok minSize uidFilter numThreads =
      some (tally (pids.flatMap (pidEntries snap minSize uidFilter))) := by
  have hg' : gatherPids Alloc.ok.gather snap = some pids := hg
  rw [hsedScanStats, hg']
  simp only [@runParallelScan_stats snap Alloc.ok rfl]

/-- The last line of a listing is its end line. -/
theorem handleScan_lines {env : Env} {c : Conn} (hc : c.sock.Healthy) {minSize onlyPid : Int}
    {uidFilter : Nat} {es : List Entry} (h : env.scan minSize onlyPid uidFilter = some es) :
    (handleScan env c minSize onlyPid uidFilter).sock.lines.getLast? =
      some (snprintf 2048 (endText es.length (tally es).totalBytes)) := by
  obtain ⟨sock₁, heq, -, -⟩ := sendEntries_ok es c.sock [] hc
  have hz : (tally []).totalBytes = 0 := rfl
  rw [List.nil_append, hz] at heq
  rw [handleScan, h]
  simp only [heq, Conn.reply, hsedSendLinef, hsedSendLine_lines]
  simp

/-- **STATS agrees with SCAN.** Without allocation failures, for every snapshot, filter and pair of thread
    counts: the scan for STATS fails exactly when the scan for SCAN does; otherwise it returns the count and
    the byte total of the listing, and these are the numbers on the listing's end line. -/
theorem stats_agree_with_scan (qsort : Qsort) (snap : Snapshot) (minSize : Int) (uidFilter : Nat)
    (k₁ k₂ : Int) :
    (hsedScanStats snap Alloc.ok minSize uidFilter k₁ = none ↔
      hsedScan qsort snap Alloc.ok minSize 0 uidFilter k₂ = none) ∧
    ∀ es, hsedScan qsort snap Alloc.ok minSize 0 uidFilter k₂ = some es →
      -(2 ^ 63) ≤ (es.map (·.size)).sum → (es.map (·.size)).sum < 2 ^ 63 →
      ∃ st, hsedScanStats snap Alloc.ok minSize uidFilter k₁ = some st ∧
        st.count = es.length ∧ st.totalBytes = (es.map (·.size)).sum ∧
        ∀ (env : Env) (c : Conn), c.sock.Healthy →
          (env.scan = fun m p u => hsedScan qsort snap Alloc.ok m p u k₂) →
          (handleScan env c minSize 0 uidFilter).sock.lines.getLast? =
            some (snprintf 2048 (endText st.count st.totalBytes)) := by
  cases hg : gatherPids (fun _ => true) snap with
  | none =>
      have hscan : hsedScan qsort snap Alloc.ok minSize 0 uidFilter k₂ = none := by
        have hg' : gatherPids Alloc.ok.gather snap = none := hg
        rw [hsedScan, if_neg (by decide), hg']
      have hstats : hsedScanStats snap Alloc.ok minSize uidFilter k₁ = none := by
        have hg' : gatherPids Alloc.ok.gather snap = none := hg
        rw [hsedScanStats, hg']
      refine ⟨iff_of_true hstats hscan, ?_⟩
      intro es hes
      rw [hscan] at hes
      cases hes
  | some pids =>
      have hstats := hsedScanStats_eq hg minSize uidFilter k₁
      obtain ⟨es₀, hes₀⟩ := hsedScan_ok qsort minSize 0 uidFilter k₂ (.inr ⟨pids, hg⟩)
      refine ⟨by rw [hstats, hes₀]; simp, ?_⟩
      intro es hes hlo hhi
      -- the listing is a permutation of the entries in pid order
      have hperm : es.Perm (pids.flatMap (pidEntries snap minSize uidFilter)) := by
        rcases (hsedScan_spec hes).2 with ⟨hp, -⟩ | ⟨-, pids', hg', hperm⟩
        · exact absurd hp (by decide)
        · rw [hg] at hg'
          rw [Option.some.inj hg']
          exact hperm
      have htally : (tally es).totalBytes = (es.map (·.size)).sum := toInt64_eq_self hlo hhi
      refine ⟨tally es, by rw [hstats, tally_perm hperm], rfl, htally, ?_⟩
      intro env c hc henv
      exact handleScan_lines hc (by rw [henv]; exact hes)

end EndToEnd
end Hsed
