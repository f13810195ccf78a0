import Hsed.Lib.Accounts
import Hsed.Lib.Lts
import Hsed.Server.Accept

/-!
# `Server.Correctness.Accept` — every descriptor has one owner

A client's descriptor belongs to `hsed_server_run` from `accept` on, to the new thread once `pthread_create` has
succeeded, and to nobody after `close`; the block it travels in goes the same way. `Owned` keeps the books of
both (`Accounts.Exact`), each call moves one entry, and so no order of calls and no failure leaks a descriptor
or gives one back twice: `descriptors_owned`.
-/

namespace Hsed
namespace Server

open Accounts

/-! ## Who holds what -/

/-- The descriptors `hsed_server_run` has to close itself. -/
def AcceptPc.fds (listenFd : Nat) : AcceptPc → Multiset Nat
  | .alloc fd => fd ::ₘ {listenFd}
  | .create fd _ => fd ::ₘ {listenFd}
  | .refuse fd => fd ::ₘ {listenFd}
  | .abandon fd _ => fd ::ₘ {listenFd}
  | .unlink => 0
  | .returned => 0
  | _ => {listenFd}

/-- The blocks it has to free or hand over. -/
def AcceptPc.blocks : AcceptPc → Multiset Nat
  | .create _ block => {block}
  | .abandon _ block => {block}
  | .release block => {block}
  | _ => 0

namespace ConnThread

/-- The descriptor a thread will close. -/
def fd : ConnThread → Nat
  | .started _ fd => fd
  | .unpacked fd _ => fd
  | .serving fd => fd

/-- The block it will free. -/
def blocks : ConnThread → Multiset Nat
  | .started block _ => {block}
  | .unpacked _ block => {block}
  | .serving _ => 0

end ConnThread

namespace Acceptor

def heldFds (d : Acceptor) : Multiset Nat := d.pc.fds d.listenFd + d.threads.map ConnThread.fd

def heldBlocks (d : Acceptor) : Multiset Nat := d.pc.blocks + d.threads.bind ConnThread.blocks

/-- The block holds the descriptor it was filled with, until the thread has read it. -/
def Packed (d : Acceptor) (block fd : Nat) : Prop := d.pc = .create fd block ∨ .started block fd ∈ d.threads

/-- **The books** of descriptors and blocks. -/
structure Owned (d : Acceptor) : Prop where
  clean : d.fault = false
  fds : Exact d.isOpen d.heldFds
  blocks : Exact (fun block => (d.heap block).isSome) d.heldBlocks
  packed : ∀ block fd, d.Packed block fd → d.heap block = some fd

section
variable {d d' : Acceptor} {fd block : Nat}

theorem owned_start (listenFd : Nat) : (start listenFd).Owned where
  clean := rfl
  fds := by
    intro x
    show ((x == listenFd) : Bool).toNat = Multiset.count x ({listenFd} + 0)
    rw [add_zero, Multiset.count_singleton]
    by_cases hx : x = listenFd
    · rw [if_pos hx, hx, beq_self_eq_true]
      rfl
    · rw [if_neg hx, beq_eq_false_iff_ne.mpr hx]
      rfl
  blocks := fun _ => rfl
  packed := by
    rintro block fd (hpc | hmem)
    · cases hpc
    · cases hmem

/-- Only the point where the loop stands moves. -/
theorem Owned.goto (h : d.Owned) {pc pc' : AcceptPc} (hpc : d.pc = pc)
    (hfds : pc'.fds d.listenFd = pc.fds d.listenFd) (hblocks : pc'.blocks = pc.blocks)
    (hpacks : ∀ fd block, pc' ≠ .create fd block) : (d.goto pc').Owned where
  clean := h.clean
  fds := by
    have hbooks := h.fds
    rw [heldFds, hpc, ← hfds] at hbooks
    exact hbooks
  blocks := by
    have hbooks := h.blocks
    rw [heldBlocks, hpc, ← hblocks] at hbooks
    exact hbooks
  packed := by
    rintro block fd (hcreate | hmem)
    · exact absurd hcreate (hpacks fd block)
    · exact h.packed block fd (.inr hmem)

/-- `close` of a descriptor that is held. -/
theorem close_of_held (h : d.Owned) (hfd : fd ∈ d.heldFds) :
    d.close fd = { d with isOpen := Function.update d.isOpen fd false } := by
  rw [close, if_pos (h.fds.mem_iff.mpr hfd)]

/-- `free` of a block that is held. -/
theorem free_of_held (h : d.Owned) (hblock : block ∈ d.heldBlocks) :
    d.free block = { d with heap := Function.update d.heap block none } := by
  have hused : (d.heap block).isSome = true := h.blocks.mem_iff.mpr hblock
  rw [free, if_pos hused]

theorem isSome_update (heap : Nat → Option Nat) (block : Nat) (v : Option Nat) :
    (fun b => (Function.update heap block v b).isSome) = Function.update (fun b => (heap b).isSome) block v.isSome := by
  funext b
  by_cases hb : b = block
  · rw [hb, Function.update_self, Function.update_self]
  · rw [Function.update_of_ne hb, Function.update_of_ne hb]

/-- The loop closes a descriptor it holds, and moves on. -/
theorem Owned.closes (h : d.Owned) {pc pc' : AcceptPc} (hpc : d.pc = pc)
    (hfds : pc.fds d.listenFd = fd ::ₘ pc'.fds d.listenFd) (hblocks : pc'.blocks = pc.blocks)
    (hpacks : ∀ fd block, pc' ≠ .create fd block) : ((d.close fd).goto pc').Owned := by
  have hheld : d.heldFds = fd ::ₘ (pc'.fds d.listenFd + d.threads.map ConnThread.fd) := by
    rw [heldFds, hpc, hfds, Multiset.cons_add]
  have hbooks := h.fds
  rw [hheld] at hbooks
  rw [close_of_held h (by rw [hheld]; exact Multiset.mem_cons_self fd _)]
  refine ⟨h.clean, hbooks.give, ?_, ?_⟩
  · have hblocks' := h.blocks
    rw [heldBlocks, hpc, ← hblocks] at hblocks'
    exact hblocks'
  · rintro block fd' (hcreate | hmem)
    · exact absurd hcreate (hpacks fd' block)
    · exact h.packed block fd' (.inr hmem)

/-- No thread has yet to read a block that somebody else holds. -/
theorem Owned.ne_of_started (h : d.Owned) (hblock : block ∈ d.pc.blocks) {block' fd' : Nat}
    (hmem : .started block' fd' ∈ d.threads) : block' ≠ block := by
  rintro rfl
  have hnodup := h.blocks.nodup
  rw [heldBlocks, Multiset.nodup_add] at hnodup
  refine Multiset.disjoint_left.mp hnodup.2.2 hblock ?_
  exact Multiset.mem_bind.mpr ⟨_, hmem, Multiset.mem_singleton_self _⟩

/-- **One call of `hsed_server_run`.** -/
theorem mainNext_owned (h : d.Owned) {ev : AcceptEv} (hnext : d.mainNext ev d.pc = some d') : d'.Owned := by
  cases hpc : d.pc with
  | test =>
      simp only [mainNext, hpc] at hnext
      split at hnext
      · obtain rfl := Option.some.inj hnext
        split
        · exact h.goto hpc rfl rfl (by intro _ _ hc; cases hc)
        · exact h.goto hpc rfl rfl (by intro _ _ hc; cases hc)
      · cases hnext
  | poll =>
      simp only [mainNext, hpc] at hnext
      split at hnext
      case h_4 => cases hnext
      all_goals
        obtain rfl := Option.some.inj hnext
        exact h.goto hpc rfl rfl (by intro _ _ hc; cases hc)
  | accept =>
      simp only [mainNext, hpc] at hnext
      split at hnext
      · obtain rfl := Option.some.inj hnext
        exact h.goto hpc rfl rfl (by intro _ _ hc; cases hc)
      · split at hnext
        · cases hnext
        -- the new descriptor had a number nobody held: it is booked on the loop
        next fd hfree =>
          obtain rfl := Option.some.inj hnext
          refine ⟨h.clean, ?_, ?_, ?_⟩
          · have hbooks := h.fds.take (Bool.eq_false_iff.mpr hfree)
            rw [heldFds, hpc, ← Multiset.cons_add] at hbooks
            exact hbooks
          · have hbooks := h.blocks
            rw [heldBlocks, hpc] at hbooks
            exact hbooks
          · rintro block fd' (hcreate | hmem)
            · cases hcreate
            · exact h.packed block fd' (.inr hmem)
      · cases hnext
  | alloc fd =>
      simp only [mainNext, hpc] at hnext
      split at hnext
      · obtain rfl := Option.some.inj hnext
        exact h.goto hpc rfl rfl (by intro _ _ hc; cases hc)
      · split at hnext
        · cases hnext
        -- likewise the block, into which the descriptor is written
        next block hfree =>
          obtain rfl := Option.some.inj hnext
          refine ⟨h.clean, ?_, ?_, ?_⟩
          · have hbooks := h.fds
            rw [heldFds, hpc] at hbooks
            exact hbooks
          · have hbooks := h.blocks.take (Bool.eq_false_iff.mpr hfree)
            rw [heldBlocks, hpc, ← Multiset.cons_add] at hbooks
            show Exact (fun b => (Function.update d.heap block (some fd) b).isSome) _
            rw [isSome_update]
            exact hbooks
          · rintro block' fd' (hcreate | hmem)
            · cases hcreate
              exact Function.update_self _ _ _
            · -- a block that was free is nobody else's
              have hold := h.packed block' fd' (.inr hmem)
              have hne : block' ≠ block := by
                rintro rfl
                rw [hold] at hfree
                exact hfree rfl
              rw [← hold]
              exact Function.update_of_ne hne _ _
      · cases hnext
  | create fd block =>
      simp only [mainNext, hpc] at hnext
      split at hnext
      · obtain rfl := Option.some.inj hnext
        -- descriptor and block go from the loop to the thread; what is held in all stays
        refine ⟨h.clean, ?_, ?_, ?_⟩
        · have hbooks := h.fds
          rw [heldFds, hpc] at hbooks
          show Exact d.isOpen ({d.listenFd} + (ConnThread.started block fd ::ₘ d.threads).map ConnThread.fd)
          rw [Multiset.map_cons, Multiset.add_cons, ← Multiset.cons_add]
          exact hbooks
        · have hbooks := h.blocks
          rw [heldBlocks, hpc] at hbooks
          show Exact _ (0 + (ConnThread.started block fd ::ₘ d.threads).bind ConnThread.blocks)
          rw [zero_add, Multiset.cons_bind]
          exact hbooks
        · rintro block' fd' (hcreate | hmem)
          · cases hcreate
          · rcases Multiset.mem_cons.mp hmem with heq | hmem
            · cases heq
              exact h.packed block fd (.inl hpc)
            · exact h.packed block' fd' (.inr hmem)
      · obtain rfl := Option.some.inj hnext
        exact h.goto hpc rfl rfl (by intro _ _ hc; cases hc)
      · cases hnext
  | refuse fd =>
      simp only [mainNext, hpc] at hnext
      split at hnext
      · obtain rfl := Option.some.inj hnext
        exact h.closes hpc rfl rfl (by intro _ _ hc; cases hc)
      · cases hnext
  | abandon fd block =>
      simp only [mainNext, hpc] at hnext
      split at hnext
      · obtain rfl := Option.some.inj hnext
        exact h.closes hpc rfl rfl (by intro _ _ hc; cases hc)
      · cases hnext
  | release block =>
      simp only [mainNext, hpc] at hnext
      split at hnext
      · obtain rfl := Option.some.inj hnext
        -- the thread was never made, so the block is still the loop's
        have hheld : d.heldBlocks = block ::ₘ d.threads.bind ConnThread.blocks := by
          rw [heldBlocks, hpc]
          rfl
        have hbooks := h.blocks
        rw [hheld] at hbooks
        rw [free_of_held h (by rw [hheld]; exact Multiset.mem_cons_self block _)]
        refine ⟨h.clean, ?_, ?_, ?_⟩
        · have hfds := h.fds
          rw [heldFds, hpc] at hfds
          exact hfds
        · show Exact (fun b => (Function.update d.heap block none b).isSome) (0 + _)
          rw [isSome_update, zero_add]
          exact hbooks.give
        · rintro block' fd' (hcreate | hmem)
          · cases hcreate
          · have hne := h.ne_of_started (by rw [hpc]; exact Multiset.mem_singleton_self block) hmem
            rw [← h.packed block' fd' (.inr hmem)]
            exact Function.update_of_ne hne _ _
      · cases hnext
  | closeListen =>
      simp only [mainNext, hpc] at hnext
      split at hnext
      · obtain rfl := Option.some.inj hnext
        exact h.closes hpc rfl rfl (by intro _ _ hc; cases hc)
      · cases hnext
  | unlink =>
      simp only [mainNext, hpc] at hnext
      split at hnext
      · obtain rfl := Option.some.inj hnext
        exact h.goto hpc rfl rfl (by intro _ _ hc; cases hc)
      · cases hnext
  | returned =>
      simp only [mainNext, hpc] at hnext
      cases hnext

/-- **One call of a connection thread.** -/
theorem threadNext_owned (h : d.Owned) {t : ConnThread} (ht : t ∈ d.threads) : (d.threadNext t).Owned := by
  obtain ⟨rest, hrest⟩ := Multiset.exists_cons_of_mem ht
  have herase : d.threads.erase t = rest := by rw [hrest, Multiset.erase_cons_head]
  have hfds := h.fds
  have hblocks := h.blocks
  have hpacked : ∀ block fd, d.pc = .create fd block ∨ .started block fd ∈ rest → d.heap block = some fd := by
    rintro block fd (hpc | hmem)
    · exact h.packed block fd (.inl hpc)
    · exact h.packed block fd (.inr (by rw [hrest]; exact Multiset.mem_cons_of_mem hmem))
  rw [heldFds, hrest, Multiset.map_cons, Multiset.add_cons] at hfds
  rw [heldBlocks, hrest, Multiset.cons_bind] at hblocks
  cases t with
  | started block fd =>
      have hread : d.heap block = some fd := h.packed block fd (.inr ht)
      rw [threadNext, hread]
      simp only [advance, herase, Multiset.singleton_add]
      refine ⟨h.clean, ?_, ?_, ?_⟩
      · show Exact d.isOpen (d.pc.fds d.listenFd + (ConnThread.unpacked fd block ::ₘ rest).map ConnThread.fd)
        rw [Multiset.map_cons, Multiset.add_cons]
        exact hfds
      · show Exact _ (d.pc.blocks + (ConnThread.unpacked fd block ::ₘ rest).bind ConnThread.blocks)
        rw [Multiset.cons_bind]
        exact hblocks
      · rintro block' fd' (hpc | hmem)
        · exact hpacked block' fd' (.inl hpc)
        · rcases Multiset.mem_cons.mp hmem with heq | hmem
          · cases heq
          · exact hpacked block' fd' (.inr hmem)
  | unpacked fd block =>
      have hheld : d.pc.blocks + (ConnThread.blocks (.unpacked fd block) + rest.bind ConnThread.blocks) =
          block ::ₘ (d.pc.blocks + rest.bind ConnThread.blocks) := by
        rw [ConnThread.blocks, Multiset.singleton_add, Multiset.add_cons]
      rw [hheld] at hblocks
      have hin : block ∈ d.heldBlocks := by
        rw [heldBlocks, hrest, Multiset.cons_bind, hheld]
        exact Multiset.mem_cons_self block _
      -- the block has no other holder that could still read it
      have halone := (Multiset.nodup_cons.mp hblocks.nodup).1
      rw [threadNext, free_of_held h hin, advance]
      simp only [herase, Multiset.singleton_add]
      refine ⟨h.clean, ?_, ?_, ?_⟩
      · show Exact d.isOpen (d.pc.fds d.listenFd + (ConnThread.serving fd ::ₘ rest).map ConnThread.fd)
        rw [Multiset.map_cons, Multiset.add_cons]
        exact hfds
      · show Exact (fun b => (Function.update d.heap block none b).isSome)
          (d.pc.blocks + (ConnThread.serving fd ::ₘ rest).bind ConnThread.blocks)
        rw [isSome_update, Multiset.cons_bind, ConnThread.blocks, zero_add]
        exact hblocks.give
      · intro block' fd' hp
        have hp' : d.pc = .create fd' block' ∨ .started block' fd' ∈ rest := by
          rcases hp with hpc | hmem
          · exact .inl hpc
          · rcases Multiset.mem_cons.mp hmem with heq | hmem
            · cases heq
            · exact .inr hmem
        have hne : block' ≠ block := by
          rintro rfl
          apply halone
          rw [Multiset.mem_add]
          rcases hp' with hpc | hmem
          · rw [hpc]
            exact .inl (Multiset.mem_singleton_self _)
          · exact .inr (Multiset.mem_bind.mpr ⟨_, hmem, Multiset.mem_singleton_self _⟩)
        rw [← hpacked block' fd' hp']
        exact Function.update_of_ne hne _ _
  | serving fd =>
      have hin : fd ∈ d.heldFds := by
        rw [heldFds, hrest, Multiset.map_cons, Multiset.add_cons]
        exact Multiset.mem_cons_self fd _
      rw [threadNext, close_of_held h hin, advance]
      simp only [herase, zero_add]
      refine ⟨h.clean, hfds.give, ?_, hpacked⟩
      rw [ConnThread.blocks, zero_add] at hblocks
      exact hblocks

/-- **Step.** -/
theorem step_owned (h : d.Owned) {ev : AcceptEv} (hstep : Step d ev d') : d'.Owned := by
  unfold Step next at hstep
  split at hstep
  · obtain rfl := Option.some.inj hstep
    exact ⟨h.clean, h.fds, h.blocks, h.packed⟩
  · split at hstep
    · obtain rfl := Option.some.inj hstep
      exact threadNext_owned h ‹_›
    · cases hstep
  · exact mainNext_owned h hstep

end

/-- **Every descriptor has one owner.** Whatever `poll`, `accept`, `malloc` and `pthread_create` return, whenever
    the signal comes, and in whatever order the connection threads run beside the loop: nothing is closed or freed
    that is not the caller's own, no `cargs` is read after it was freed; a descriptor is open just when the loop or
    exactly one connection thread is going to close it, and a `cargs` allocated just when one of them is going to
    free it. So between two clients the open descriptors are the listening one and one for each live thread, and
    after the return only the latter. -/
theorem descriptors_owned (listenFd : Nat) (evs : List AcceptEv) (d : Acceptor)
    (hrun : Lts.Run Step (start listenFd) evs d) :
    d.fault = false ∧ d.heldFds.Nodup ∧ (∀ fd, d.isOpen fd = true ↔ fd ∈ d.heldFds) ∧
      d.heldBlocks.Nodup ∧ ∀ block, d.heap block ≠ none ↔ block ∈ d.heldBlocks := by
  have h : d.Owned := hrun.invariant (I := Owned) (owned_start listenFd)
    fun _ _ _ hd hstep => step_owned hd hstep
  refine ⟨h.clean, h.fds.nodup, fun fd => h.fds.mem_iff, h.blocks.nodup, ?_⟩
  intro block
  rw [← h.blocks.mem_iff]
  exact Option.isSome_iff_ne_none.symm

/-- Two clients, of which the second gets the number the first one had; the thread for a third cannot be made. -/
def threeClients : List AcceptEv :=
  [.test, .poll .ready, .accept (some 4), .alloc (some 100), .create true, .thread (.started 100 4),
    .thread (.unpacked 4 100), .thread (.serving 4), .test, .poll .ready, .accept (some 4), .alloc (some 100),
    .create true, .test, .poll .ready, .accept (some 5), .alloc (some 101), .create false, .main, .main]

theorem descriptors_owned_three_clients :
    ∃ d, Lts.Run Step (start 3) threeClients d ∧ d.heldFds = {3, 4} ∧ d.fault = false ∧
      ∀ fd, d.isOpen fd = true ↔ fd ∈ d.heldFds := by
  have hexec : (threeClients.foldlM next (start 3)).any (fun d => d.heldFds = {3, 4}) := by decide +kernel
  obtain ⟨d, hd, hheld⟩ := (Option.any_eq_true _ _).mp hexec
  have hrun : Lts.Run Step (start 3) threeClients d := Lts.Run.of_exec (fun _ _ _ _ h => h) hd
  obtain ⟨hclean, -, hopen, -⟩ := descriptors_owned 3 threeClients d hrun
  exact ⟨d, hrun, of_decide_eq_true hheld, hclean, hopen⟩

end Acceptor

end Server
end Hsed
