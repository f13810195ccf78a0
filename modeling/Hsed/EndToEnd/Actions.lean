import Hsed.EndToEnd.Scan
import Hsed.Server.Correctness.Requests

/-!
# `EndToEnd.Actions` — from an entry to the handler of an action on it

The pid and descriptor of an entry are printed by `hsed_format_entry`, decoded by `Client.Scan`, printed
again into a request line and read back by `atol` and `atoi`. Both numbers are `int`s in the daemon, so
no step changes them: `action_requests_survive`.
-/

namespace Hsed
namespace EndToEnd

open CLib Scan Wire Server Client

/-- The numerals of a request come back through `atol`, `atoi` and the casts to `pid_t` and `int`. -/
theorem argument_survives {x : Int} (h : -(2 ^ 31) ≤ x ∧ x < 2 ^ 31) :
    toInt32 (strtol (decInt x)) = x ∧ atoi (decInt x) = x := by
  have hlong : strtol (decInt x) = x := strtol_decInt (by omega) (by omega)
  rw [atoi, hlong, toInt32_eq_self h.1 h.2]
  exact ⟨rfl, rfl⟩

theorem connLoop_request {env : Nat → Env} {pid fd : Int} (hp : -(2 ^ 31) ≤ pid ∧ pid < 2 ^ 31)
    (hf : -(2 ^ 31) ≤ fd ∧ fd < 2 ^ 31) {action : Action} {recv : List Recv}
    (hd : Delivers recv (action.request pid fd)) (fuel i : Nat) (rest : List Recv) (sock : Sock)
    (kills : List (Int × Int)) :
    connLoop env (fuel + 1) i ⟨recv ++ .byte 0x0a :: rest, sock, kills⟩ =
      ⟨action.request pid fd, ⟨rest, sock, kills⟩, (handler (env i) ⟨rest, sock, kills⟩ pid fd action).2⟩ ::
        (if (handler (env i) ⟨rest, sock, kills⟩ pid fd action).1 then
          connLoop env fuel (i + 1) (handler (env i) ⟨rest, sock, kills⟩ pid fd action).2 else []) := by
  have hbytes := notMem_of_printable (printable_request pid fd action)
  have hlen : (action.request pid fd).length < lineSize := length_request_lt (by omega) (by omega) action
  rw [connLoop_delivers hd hbytes.1 hbytes.2 hlen, handleLine_request, (argument_survives hp).1,
    (argument_survives hf).2]

/-- **Action requests survive the wire.** `Client.Scan` takes the line of an entry off any reply and decodes
    it to the entry's pid and descriptor; the request of any action on what it decoded, however `recv` splits
    it and wherever it stands on a connection, is served by the handler of that action with that pid and
    descriptor, and the connection goes on unless the daemon signals itself. -/
theorem action_requests_survive {e : Entry} (ht : e.Typed) (hcomm : e.comm.length ≤ 15) :
    ∃ h : HiddenEntry, h.pid = e.pid ∧ h.fd = e.fd ∧
      (∀ fuel rest entries, scanLoop (fuel + 1) (hsedFormatEntry e linebufSize ++ 0x0a :: rest) entries =
        scanLoop fuel rest (entries ++ [h])) ∧
      ∀ (action : Action) (recv : List Recv), Delivers recv (action.request h.pid h.fd) →
        ∀ (env : Nat → Env) (fuel i : Nat) (rest : List Recv) (sock : Sock) (kills : List (Int × Int)),
          connLoop env (fuel + 1) i ⟨recv ++ .byte 0x0a :: rest, sock, kills⟩ =
            ⟨action.request h.pid h.fd, ⟨rest, sock, kills⟩,
                (handler (env i) ⟨rest, sock, kills⟩ e.pid e.fd action).2⟩ ::
              (if (handler (env i) ⟨rest, sock, kills⟩ e.pid e.fd action).1 then
                connLoop env fuel (i + 1) (handler (env i) ⟨rest, sock, kills⟩ e.pid e.fd action).2 else []) := by
  refine ⟨received e, rfl, rfl, fun fuel rest entries => scanLoop_entry ht hcomm fuel rest entries, ?_⟩
  intro action recv hd env fuel i rest sock kills
  exact connLoop_request ht.pid ht.fd hd fuel i rest sock kills

theorem oneEntry_typed : (oneEntry (ascii "cat")).Typed :=
  ⟨by decide, by decide, by decide, by decide, by decide, by decide, by decide, by decide, by decide, by decide,
    by decide, by decide, by decide⟩

/-- The daemon around process 7. -/
def catEnv (_ : Nat) : Env := oneProcessEnv (ascii "cat")

/-- KILL for the entry of process 7. -/
theorem action_requests_survive_cat :
    ∃ h : HiddenEntry, h.pid = 7 ∧ h.fd = 3 ∧
      handleConnection catEnv ((ascii "KILL 7").map .byte ++ [.byte 0x0a]) Sock.fresh =
        ⟨ascii "KILL 7", ⟨[], Sock.fresh, []⟩, (handleKill (catEnv 0) ⟨[], Sock.fresh, []⟩ 7).2⟩ ::
          connLoop catEnv 7 1 (handleKill (catEnv 0) ⟨[], Sock.fresh, []⟩ 7).2 := by
  obtain ⟨h, hpid, hfd, -, hact⟩ := action_requests_survive oneEntry_typed (by decide)
  refine ⟨h, hpid, hfd, ?_⟩
  have hreq : Action.request h.pid h.fd .kill = ascii "KILL 7" := by rw [hpid]; rfl
  have hserved := hact .kill ((ascii "KILL 7").map .byte) (by rw [hreq]; rfl) catEnv 7 0 [] Sock.fresh []
  rw [hreq] at hserved
  exact hserved

end EndToEnd
end Hsed
