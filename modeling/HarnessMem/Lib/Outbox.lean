import Mathlib.Data.List.Basic

/-! Accounting for an outbox that keeps order and may drop: what entered is what was sent, what is
held and what was dropped. Nothing here knows how the outbox sends or when it drops. -/
namespace HarnessMem.Outbox

variable {α : Type*}

-- `held` in order of entry: what is being sent, then what waits.
structure Accounted (entered sent held dropped : List α) : Prop where
  order : (sent ++ held).Sublist entered
  whole : entered.Perm (sent ++ held ++ dropped)

variable {entered sent held dropped rest : List α} {x : α}

theorem Accounted.empty : Accounted (α := α) [] [] [] [] := ⟨.refl [], .refl []⟩

theorem Accounted.enter (old : Accounted entered sent held dropped) (x : α) :
    Accounted (entered ++ [x]) sent (held ++ [x]) dropped := by
  refine ⟨?_, ?_⟩
  · rw [← List.append_assoc]
    exact old.order.append (.refl [x])
  · have swap : (dropped ++ [x]).Perm ([x] ++ dropped) := List.perm_append_comm
    calc (entered ++ [x]).Perm (sent ++ held ++ dropped ++ [x]) := old.whole.append_right [x]
      List.Perm _ (sent ++ (held ++ [x]) ++ dropped) := by
        simpa [List.append_assoc] using swap.append_left (sent ++ held)

theorem Accounted.drop {before after : List α} (old : Accounted entered sent (before ++ x :: after) dropped) :
    Accounted entered sent (before ++ after) (dropped ++ [x]) := by
  refine ⟨?_, ?_⟩
  · have fewer : (before ++ after).Sublist (before ++ x :: after) := (List.Sublist.refl before).append (List.sublist_cons_self x after)
    exact ((List.Sublist.refl sent).append fewer).trans old.order
  · refine old.whole.trans ?_
    simp only [List.append_assoc, List.cons_append]
    refine List.Perm.append_left sent (List.Perm.append_left before ?_)
    have last : (x :: (after ++ dropped)).Perm (after ++ dropped ++ [x]) := (List.perm_append_singleton x _).symm
    simpa [List.append_assoc] using last

theorem Accounted.send {batch : List α} (old : Accounted entered sent (batch ++ rest) dropped) :
    Accounted entered (sent ++ batch) rest dropped := by
  refine ⟨?_, ?_⟩
  · rw [List.append_assoc]
    exact old.order
  · simpa [List.append_assoc] using old.whole

end HarnessMem.Outbox
