import WirelessGateway.Lib.History
import WirelessGateway.Provenance

namespace WirelessGateway.Accepted

open CJson WirelessGateway.Types Memory Transport Tasks WellFormed Lifecycle Steps Provenance
open Lib.History Lib.Runs

variable {P : Platform} {G : Guard} {s t : Server} {p : CallPtr} {c d e : ApiCall}

def acceptKey : Event → Option CallPtr
  | .accept p _ _ _ => some p
  | _ => none

theorem acceptKey_eq_some {e : Event} (h : acceptKey e = some p) :
    ∃ n json c, e = .accept p n json c := by
  cases e with
  | accept q n json c => exact ⟨n, json, c, by rw [Option.some.inj h]⟩
  | _ => cases h

/-- Calls are accepted as their frames ask for, at increasing addresses, and
there are no others. -/
structure Accepts (P : Platform) (s : Server) : Prop where
  asks : ∀ p n json c, .accept p n json c ∈ s.trace → p < s.nextCall ∧ AsksFor P json c
  increasing : Increasing acceptKey s.trace
  born : ∀ z e, s.calls z = some e → ∃ n json c, .accept z n json c ∈ s.trace ∧ Evolves c e

theorem act_accepted (h : Act P G s t) (ha : Accepts P s) : Accepts P t := by
  obtain ⟨l, ht, hl⟩ := act_trace h
  refine ⟨fun p n json c hm => ?_, ?_, fun z e he => ?_⟩
  · rw [ht, List.mem_append] at hm
    rcases hm with hm | hm
    · obtain ⟨hlt, hasks⟩ := ha.asks p n json c hm
      exact ⟨Nat.lt_of_lt_of_le hlt (act_nextCall h), hasks⟩
    · obtain ⟨rfl, hasks, rfl⟩ := hl _ hm
      exact ⟨Nat.lt_succ_self _, hasks⟩
  · by_cases hnew : ∃ p n json c, .accept p n json c ∈ l
    · obtain ⟨p, n, json, c, hm⟩ := hnew
      obtain ⟨rfl, -, rfl⟩ := hl _ hm
      have htrace : (accepted s n json c).trace = s.trace ++ [.accept s.nextCall n json c] := rfl
      rw [htrace]
      refine ha.increasing.snoc rfl (fun e' he' k hk => ?_)
      obtain ⟨n', json', c', rfl⟩ := acceptKey_eq_some hk
      exact (ha.asks k n' json' c' he').1
    · rw [ht]
      refine ha.increasing.aside (fun e he => ?_)
      cases hk : acceptKey e with
      | none => rfl
      | some p =>
          obtain ⟨n, json, c, rfl⟩ := acceptKey_eq_some hk
          exact absurd ⟨p, n, json, c, he⟩ hnew
  · rcases act_calls h he with ⟨c, hc, hev, -⟩ | ⟨rfl, n, json, sid, hnew, -⟩
    · obtain ⟨n, json, c₀, hm, hev₀⟩ := ha.born z c hc
      exact ⟨n, json, c₀, ht ▸ List.mem_append_left l hm, hev₀.trans hev⟩
    · refine ⟨n, json, e, ?_, .refl e⟩
      rw [hnew]
      exact List.mem_append_right _ (List.mem_singleton.2 rfl)

theorem init_accepts (P : Platform) (depth : QueueId → Nat) : Accepts P (initServer depth) where
  asks p n json c hm := by cases hm
  increasing := .nil
  born z e he := by cases he

theorem reachable_accepts {x : System} (h : Reachable (machine P) x) : Accepts P x.srv :=
  reachable_acts (init_accepts P) (fun _ _ _ hact ha => act_accepted hact ha) h

theorem Accepts.evolved (ha : Accepts P s) {n : ConnPtr} {json : Json}
    (hm : .accept p n json c ∈ s.trace) (hd : s.calls p = some d) : Evolves c d := by
  obtain ⟨n', json', c', hm', hev⟩ := ha.born p d hd
  have := ha.increasing.eq hm hm' rfl rfl
  cases this
  exact hev

end WirelessGateway.Accepted
