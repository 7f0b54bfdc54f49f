import MailMerge.Proofs.Value.Faults

/-!
# Paths behind paths

A path that goes on behind a point is resolved from where its first part leads, and so is a path of any
number of parts. What fails on the way fails the whole path. A value without parts is the end of every
path: from there on nothing is found, and nothing fails.

**`resolve_composes`**: paths compose, with their failures and their dead ends.
-/

namespace MailMerge.Value

variable {v w : Value} {p q : Text} {names ps : List Text}

/-! ## Dead ends -/

/-- No step leads on from the value: it is no record, no list and no tuple. -/
def IsDeadEnd : Value → Prop
  | record _ | list _ | tuple _ => False
  | _ => True

theorem step_of_isDeadEnd (h : v.IsDeadEnd) (name : Text) : v.step name = .ok unresolved := by
  cases v with
  | record _ | list _ | tuple _ => exact h.elim
  | _ => rfl

/-- A dead end leads nowhere, and nowhere is a dead end again. -/
theorem foldlM_step_of_isDeadEnd (h : v.IsDeadEnd) (hne : names ≠ []) :
    names.foldlM step v = .ok unresolved := by
  induction names generalizing v with
  | nil => exact absurd rfl hne
  | cons name names ih =>
    rw [List.foldlM_cons, step_of_isDeadEnd h]
    cases names with
    | nil => rfl
    | cons next names => exact ih (v := unresolved) trivial (List.cons_ne_nil next names)

/-! ## Parts of paths -/

/-- A path of one name is one step. -/
theorem resolve_single (hne : p ≠ []) (hdot : '.' ∉ p) : v.resolve p = v.step p := by
  rw [resolve, if_neg hne, Text.splitOn_of_notMem hdot]
  exact bind_pure (v.step p)

/-- A path goes on from where its first part leads, also with names that are empty. -/
theorem resolve_beyond (hp : p ≠ []) (q : Text) :
    v.resolve (p ++ '.' :: q) = v.resolve p >>= (Text.splitOn '.' q).foldlM step := by
  rw [resolve, if_neg (by simp), resolve, if_neg hp, Text.splitOn_append, List.foldlM_append]

/-- Whatever stands behind the way to a dead end, nothing is found there. -/
theorem resolve_beyond_isDeadEnd (hp : p ≠ []) (hw : v.resolve p = .ok w) (hdead : w.IsDeadEnd)
    (q : Text) : v.resolve (p ++ '.' :: q) = .ok unresolved := by
  rw [resolve_beyond hp, hw]
  exact foldlM_step_of_isDeadEnd hdead (Text.splitOn_ne_nil '.' q)

/-- A path of parts is resolved part by part. -/
theorem resolve_join (hne : ps ≠ []) (h : ∀ p ∈ ps, p ≠ []) :
    v.resolve (Text.join ['.'] ps) = ps.foldlM resolve v := by
  induction ps generalizing v with
  | nil => exact absurd rfl hne
  | cons p ps ih =>
    have hp : p ≠ [] := h p List.mem_cons_self
    rw [List.foldlM_cons]
    cases ps with
    | nil => exact (bind_pure (v.resolve p)).symm
    | cons q ps =>
      have hrest : Text.join ['.'] (q :: ps) ≠ [] := by
        cases ps <;> simp [Text.join, h q]
      calc v.resolve (Text.join ['.'] (p :: q :: ps))
          = v.resolve (p ++ '.' :: Text.join ['.'] (q :: ps)) := by simp [Text.join]
        _ = v.resolve p >>= fun w => w.resolve (Text.join ['.'] (q :: ps)) := resolve_append v hp hrest
        _ = v.resolve p >>= fun w => (q :: ps).foldlM resolve w := by
          refine bind_congr fun w => ?_
          exact ih (List.cons_ne_nil q ps) fun r hr => h r (List.mem_cons_of_mem p hr)

/-! ## Composition -/

/-- **Paths compose**: a path behind another one, or any number of them in a row, down to single names.
The whole fails just as a part does, and finds nothing beyond a dead end. -/
theorem resolve_composes (v : Value) (hp : p ≠ []) (hq : q ≠ []) :
    v.resolve (p ++ '.' :: q) = (v.resolve p >>= fun w => w.resolve q) ∧
      ('.' ∉ p → v.resolve p = v.step p) ∧
      (∀ ps, (∀ r ∈ ps, r ≠ []) →
        v.resolve (Text.join ['.'] (p :: ps)) = (p :: ps).foldlM resolve v) ∧
      (∀ f, v.resolve (p ++ '.' :: q) = .error f ↔
        v.resolve p = .error f ∨ ∃ w, v.resolve p = .ok w ∧ w.resolve q = .error f) ∧
      ∀ w, v.resolve p = .ok w → w.IsDeadEnd → ∀ r, v.resolve (p ++ '.' :: r) = .ok unresolved := by
  refine ⟨resolve_append v hp hq, resolve_single hp, ?_, ?_, ?_⟩
  · intro ps hps
    exact resolve_join (List.cons_ne_nil p ps) (List.forall_mem_cons.2 ⟨hp, hps⟩)
  · intro f
    rw [resolve_append v hp hq]
    exact bind_eq_error_iff
  · intro w hw hdead r
    exact resolve_beyond_isDeadEnd hp hw hdead r

/-- A record with a list of two items in it. -/
def namedItems : Value :=
  record [("Items".toList, list [record [("Name".toList, text "a")], record [("Name".toList, null)]])]

/-- The name of the first item is found, the second one's is a dead end, and a superscript leads astray. -/
theorem resolve_composes_namedItems :
    "Items.0".toList ≠ [] ∧ "Name".toList ≠ [] ∧ "Items.1.Name".toList ≠ [] ∧ "Items.²".toList ≠ [] ∧
      namedItems.resolve "Items.0.Name" = .ok (text "a") ∧
      namedItems.resolve "Items.1.Name.First" = .ok unresolved ∧
      namedItems.resolve "Items.².Name" = .error .oddIndex := by
  have hitem := resolve_composes (p := "Items.0") (q := "Name") namedItems (by decide) (by decide)
  have hdead := resolve_composes (p := "Items.1.Name") (q := "First") namedItems (by decide) (by decide)
  have hodd := resolve_composes (p := "Items.²") (q := "Name") namedItems (by decide) (by decide)
  refine ⟨by decide, by decide, by decide, by decide, ?_, ?_, ?_⟩
  · exact hitem.1.trans rfl
  · exact hdead.2.2.2.2 null rfl trivial "First"
  · exact (hodd.2.2.2.1 .oddIndex).2 (.inl rfl)

end MailMerge.Value
