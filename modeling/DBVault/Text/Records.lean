import DBVault.Text.Path
import DBVault.Text.Words

/-! Trimmed texts. -/
namespace Text
open List

theorem mem_of_mem_trim {c : Char} {chars : List Char} (hIn : c ∈ trim chars) : c ∈ chars := by
  have hReverse := dropWhile_subset _ (mem_reverse.mp hIn)
  exact dropWhile_subset _ (mem_reverse.mp hReverse)

end Text
