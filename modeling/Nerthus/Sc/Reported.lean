import Nerthus.Sc.Register

/-!
# Which reports are carried out

A proof is checked in the state that its units refer to, the accused are
punished in the present one. A report fails if one of them has left in the
meantime without being marked.
-/

namespace Nerthus.Sc

open Arbitration (Signed)
open Lib (bind_eq_ok_iff guard_eq_ok_iff)
open ScStep

namespace StateDB

section Report

variable {env : Env} {call : Call} {gas : Nat} {db : StateDB} {choose : Header}
  {proof : List AffectedUnit} {bads : List Address}

def reportGas (accused : Nat) : Nat :=
  Gas.sstoreLoadGas * 2 + Gas.sha256BaseGas * 2 + Gas.sstoreLoadGas + accused * punishGas +
    Gas.sstoreLoadGas + Gas.sstoreSetGas

theorem mem_arbitrationNumbers_flag (db : StateDB) {chain : Address} {number : Nat}
    (hlt : number < 2 ^ 64) (hfaithful : Lib.IndexedSet.Faithful (db.sets (arbitrationIngKey chain))) :
    number ∈ (db.writeArbitrationNumberFlag chain number).arbitrationNumbers chain := by
  refine List.mem_map.mpr ⟨uint2Hash number, ?_, hash2uint_uint2Hash hlt⟩
  rw [flag_sets, if_pos rfl, StateSet.mem_insert hfaithful]
  exact .inr rfl

theorem systemReportDishonest_ok (hdb : Consistent db)
    (hcaller : call.caller ∈ db.getSystemMainWitness) (hchoose : choose.mc.empty = true)
    (hcheck : checkReport env proof = .ok bads) (hgas : reportGas bads.length ≤ gas)
    (hbads : ∀ a ∈ bads, Punishable db a) :
    ∃ db' gas', db.systemReportDishonest env call gas ⟨choose, proof⟩ = .ok (db', gas') := by
  obtain ⟨mc, number, hproof⟩ := Arbitration.checkProofWithState_spec hcheck
  obtain ⟨first, rest, rfl, -, -⟩ := hproof.first
  have hlength : (sortAccused bads).length = bads.length :=
    (List.perm_insertionSort _ bads).length_eq
  rw [reportGas] at hgas
  obtain ⟨db₁, gas₁, hpunish, hleft⟩ := punish_ok env call hdb
    (nodup_sortAccused hproof.accused_nodup)
    (fun a ha => hbads a (mem_sortAccused.mp ha))
    (show (sortAccused bads).length * punishGas ≤
      gas - Gas.sstoreLoadGas * 2 - Gas.sha256BaseGas * 2 - Gas.sstoreLoadGas by
        rw [hlength]
        omega)
  rw [hlength] at hleft
  refine ⟨db₁.writeArbitrationNumberFlag first.header.mc first.header.number,
    gas₁ - Gas.sstoreLoadGas - Gas.sstoreSetGas, ?_⟩
  unfold systemReportDishonest
  refine guard_eq_ok_iff.mpr ⟨by simp, bind_eq_ok_iff.mpr ⟨_, useGas_of_le (by omega),
    guard_eq_ok_iff.mpr ⟨not_not.mpr hcaller, bind_eq_ok_iff.mpr ⟨_, useGas_of_le (by omega), ?_⟩⟩⟩⟩
  refine bind_eq_ok_iff.mpr ⟨_, useGas_of_le (by omega), bind_eq_ok_iff.mpr ⟨bads, hcheck,
    bind_eq_ok_iff.mpr ⟨(db₁, gas₁), hpunish, ?_⟩⟩⟩
  refine bind_eq_ok_iff.mpr ⟨_, useGas_of_le (by omega), bind_eq_ok_iff.mpr ⟨_,
    useGas_of_le (by omega), ?_⟩⟩
  rw [hchoose, if_pos rfl]
  rfl

theorem reported_of_ok {db' : StateDB} {gas' : Nat} (hdb : Consistent db)
    (hnumbers : ∀ c, Lib.IndexedSet.Faithful (db.sets (arbitrationIngKey c)))
    (hchoose : choose.mc.empty = true) (hcheck : checkReport env proof = .ok bads)
    (h : db.systemReportDishonest env call gas ⟨choose, proof⟩ = .ok (db', gas')) :
    (∀ a ∈ bads, Punishable db a) ∧ ∀ first ∈ proof.head?,
      first.header.number ∈ db'.arbitrationNumbers first.header.mc := by
  obtain ⟨-, ⟨hempty, -⟩ | ⟨first, rest, bads', db₁, gas₁, gas₂, hfirst, hcheck', hpunish, hlast⟩⟩ :=
    systemReportDishonest_cases h
  · dsimp only at hempty
    rw [hempty] at hcheck
    cases hcheck
  · dsimp only at hfirst hcheck'
    obtain rfl : bads = bads' := Except.ok.inj (hcheck.symm.trans hcheck')
    obtain ⟨hall, hpunished⟩ := punish_spec hdb hpunish
    refine ⟨fun a ha => hall a (mem_sortAccused.mpr ha), fun u hu => ?_⟩
    obtain rfl : first = u := by
      rw [hfirst] at hu
      exact Option.some.inj hu
    rcases hlast with ⟨-, rfl⟩ | ⟨hchosen, -⟩
    · refine mem_arbitrationNumbers_flag db₁ first.header.number_lt ?_
      rw [hpunished.sameRegister.sets _ (by rfl)]
      exact hnumbers _
    · rw [hchoose] at hchosen
      cases hchosen

end Report

end StateDB

open StateDB

/-- Where groups and sets are well formed (`register_state`), a report of a main system witness with
an accepted proof brings the height under arbitration exactly if everybody who signed a vote of the
proof still works or is marked already. -/
theorem valid_report_starts_iff (env : Env) (db : StateDB) (call : Call) (gas : Nat)
    (choose : Header) (proof : List AffectedUnit) (bads : List Address) (hdb : Consistent db)
    (hnumbers : ∀ c, Lib.IndexedSet.Faithful (db.sets (arbitrationIngKey c)))
    (hcaller : call.caller ∈ db.getSystemMainWitness)
    (hchoose : choose.mc.empty = true) (hcheck : checkReport env proof = .ok bads)
    (hgas : reportGas bads.length ≤ gas) :
    (∃ db' gas', db.systemReportDishonest env call gas ⟨choose, proof⟩ = .ok (db', gas') ∧
      ∀ first ∈ proof.head?,
        db'.getArbitrationResult first.header.mc first.header.number = Hash.zero →
        first.header.number ∈ db'.arbitrationNumbers first.header.mc) ↔
    ∀ u ∈ proof, ∀ a, Signed env.voteSender u a → Punishable db a := by
  obtain ⟨mc, number, hproof⟩ := Arbitration.checkProofWithState_spec hcheck
  constructor
  · rintro ⟨db', gas', hreport, -⟩ u hu a hsigned
    exact (reported_of_ok hdb hnumbers hchoose hcheck hreport).1 a
      ((hproof.accused a).mpr ⟨u, hu, hsigned⟩)
  · intro hall
    have hbads : ∀ a ∈ bads, Punishable db a := fun a ha => by
      obtain ⟨u, hu, hsigned⟩ := (hproof.accused a).mp ha
      exact hall u hu a hsigned
    obtain ⟨db', gas', hreport⟩ :=
      systemReportDishonest_ok hdb hcaller hchoose hcheck hgas hbads
    exact ⟨db', gas', hreport, fun first hfirst _ =>
      (reported_of_ok hdb hnumbers hchoose hcheck hreport).2 first hfirst⟩

namespace Sample

theorem valid_report_starts : ∃ db' gas', (state reportEnv joinAll).systemReportDishonest reportEnv
      ⟨⟨201⟩, ⟨201⟩, 8⟩ 5000000 ⟨noChoice, doubled⟩ = .ok (db', gas') ∧
      7 ∈ db'.arbitrationNumbers ⟨50⟩ := by
  have hcheck : checkReport reportEnv doubled =
      .ok ((List.range' 101 8).map fun n => (⟨n⟩ : Address)) := by decide +kernel
  have hnormal : ∀ a ∈ (List.range' 101 8).map fun n => (⟨n⟩ : Address),
      ((state reportEnv joinAll).witness a).status = some .normal := by decide +kernel
  have hresult : ((state reportEnv joinAll).systemReportDishonest reportEnv
      ⟨⟨201⟩, ⟨201⟩, 8⟩ 5000000 ⟨noChoice, doubled⟩).toOption.map
        (fun r => r.1.getArbitrationResult ⟨50⟩ 7) = some Hash.zero := by decide +kernel
  obtain ⟨mc, number, hproof⟩ := Arbitration.checkProofWithState_spec hcheck
  obtain ⟨hdb, hregister, -⟩ := register_state reportEnv joinAll
  obtain ⟨db', gas', hreport, hopen⟩ := (valid_report_starts_iff reportEnv _ ⟨⟨201⟩, ⟨201⟩, 8⟩
    5000000 noChoice doubled _ hdb (fun _ => hregister.faithful _ rfl) (by decide +kernel) rfl hcheck
    (by decide +kernel)).mpr fun u hu a hsigned =>
      .inr (hnormal a ((hproof.accused a).mpr ⟨u, hu, hsigned⟩))
  rw [hreport] at hresult
  exact ⟨db', gas', hreport, hopen _ rfl (Option.some.inj hresult)⟩

def leftSince : List ScStep := joinAll ++ [.member (.remove ⟨⟨105⟩, ⟨105⟩, 8⟩ ⟨105⟩ false)]

/-- The proof is accepted, but the report fails, and nothing is under arbitration. -/
theorem valid_report_fails : (checkReport reportEnv doubled).isOk = true ∧
      (⟨201⟩ : Address) ∈ (state reportEnv leftSince).getSystemMainWitness ∧
      ((state reportEnv leftSince).systemReportDishonest reportEnv
        ⟨⟨201⟩, ⟨201⟩, 8⟩ 5000000 ⟨noChoice, doubled⟩).isOk = false ∧
      (state reportEnv leftSince).arbitrationNumbers ⟨50⟩ = [] := by
  decide +kernel

end Sample

end Nerthus.Sc
