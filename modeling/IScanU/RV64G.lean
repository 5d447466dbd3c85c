import IScanU.Handlers
import IScanU.Verify.Blacklist

/-! # The RV64G target (`arch/RV64G/`)

`riscvgOnlyFetch` takes every fourth word. Its loop ends because no two words 4 apart are
blacklisted, so the model of the stage comes after the facts about `Blacklist`. -/

namespace IScanU.RV64G

/-- The constructor is defined on this list (`exists_blacklist`). -/
@[irreducible] def blacklist : Blacklist :=
  (Blacklist.ofList [⟨0b000100010111, 0b11111111111111111111000000000000⟩]).getD ⟨[]⟩

theorem exists_blacklist :
    Blacklist.ofList [⟨0b000100010111, 0b11111111111111111111000000000000⟩] = some blacklist ∧
      Lists blacklist.search [⟨0b000100010111, 0b11111111111111111111000000000000⟩] := by
  have hallowed : ∀ m ∈ [(⟨0b000100010111, 0b11111111111111111111000000000000⟩ : InstructionMask)],
      m.numDontCares ≤ 31 := by decide
  obtain ⟨b, hb, hlists⟩ := Blacklist.ofList_spec hallowed
  have hblacklist : blacklist = b := by
    unfold blacklist
    simp only [hb, Option.getD_some]
  rw [hblacklist]
  exact ⟨hb, hlists⟩

/-- What is blacklisted: adding the upper immediate to the stack pointer. -/
theorem search_blacklist {k : InstrT} :
    blacklist.search k = true ↔ k &&& 0b111111111111 = 0b000100010111 := by
  rw [exists_blacklist.2 k]
  simp only [List.mem_singleton, exists_eq_left, Pattern.mem_iff]
  exact Iff.rfl

/-- A blacklisted word has the low bits of a full-size instruction. -/
theorem toNat_of_search {k : InstrT} (h : blacklist.search k = true) : k.toNat % 4096 = 279 := by
  have := congrArg BitVec.toNat (search_blacklist.1 h)
  rw [BitVec.toNat_and] at this
  exact (Nat.and_two_pow_sub_one_eq_mod k.toNat 12).symm.trans this

theorem not_search_add_four {k : InstrT} (h : blacklist.search k = true) :
    blacklist.search (k + 4#32) = false := by
  rw [Bool.eq_false_iff]
  intro h'
  have h1 := toNat_of_search h
  have h2 := toNat_of_search h'
  rw [BitVec.toNat_add] at h2
  have : (4#32).toNat = 4 := rfl
  omega

/-- The `while(blacklist.search(tempInstruction))` loop of `riscvgOnlyFetch`. -/
def riscvgOnlyLoop (search : InstrT → Bool) (hsearch : ∀ k, search k = true → search (k + 4#32) = false)
    (tempInstruction : InstrT) (data : Scanner) : Option InstrT × Scanner :=
  if search tempInstruction then
    if tempInstruction = data.finalInstruction then (none, data)
    else riscvgOnlyLoop search hsearch (tempInstruction + 4#32) (data.count 1)
  else (some tempInstruction, data)
termination_by if search tempInstruction then 1 else 0
decreasing_by
  rename_i h _
  rw [if_pos h, hsearch _ h]
  exact Nat.one_pos

def riscvgOnlyFetch : FetchStage := fun data =>
  if data.currentInstruction = data.finalInstruction then (none, data)
  else riscvgOnlyLoop blacklist.search (fun _ => not_search_add_four)
    (data.currentInstruction + 4#32) data

/-- The scanner for full-size instructions. -/
def config (analyse : AnalysisStage) : Config where
  arch := .rv64g
  search := blacklist.search
  analyse := analyse
  fetchInstruction := riscvgOnlyFetch

end IScanU.RV64G
