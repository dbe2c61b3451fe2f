import HarnessMem.Search

/-! Where a search's candidates come from, stage by stage. -/
namespace HarnessMem.Search
open Js Text Recorder Visibility

theorem memAdd {ids : List String} {id other : String} : other ∈ add ids id ↔ other ∈ ids ∨ other = id := by
  unfold add
  split
  · rename_i held
    exact ⟨.inl, fun either => either.elim (fun mem => mem) (fun same => same ▸ held)⟩
  · simp

theorem memAddAll {ids more : List String} {id : String} : id ∈ addAll ids more ↔ id ∈ ids ∨ id ∈ more := by
  unfold addAll
  induction more generalizing ids with
  | nil => simp
  | cons first rest ih => rw [List.foldl_cons, ih, memAdd, List.mem_cons, or_assoc]

section
variable {host : Host} {settings : Settings} {engine : Engine} {request : Normalized} {db : Db}

-- The id names a row that meets every common filter.
def Admitted (host : Host) (settings : Settings) (request : Normalized) (db : Db) (id : String) : Prop :=
  ∃ row ∈ db.observations, row.id = id ∧ applyCommonFilters host settings request row = true

theorem admittedRow {row : Observation} (mem : row ∈ admitted host settings request db) :
    Admitted host settings request db row.id :=
  ⟨row, List.mem_of_mem_filter mem, rfl, (List.mem_filter.mp mem).2⟩

theorem lexicalAdmitted {limit : Nat} {id : String} (found : id ∈ lexicalSearch host settings engine request limit db) :
    Admitted host settings request db id := by
  unfold lexicalSearch at found
  simp only at found
  split at found
  · obtain ⟨row, mem, rfl⟩ := List.mem_map.mp found
    obtain ⟨other, _, hit⟩ := List.mem_filterMap.mp (List.mem_of_mem_take mem)
    exact admittedRow (List.mem_of_find?_eq_some hit)
  · obtain ⟨row, mem, rfl⟩ := List.mem_map.mp found
    exact admittedRow ((Tables.memOrderBy _).mp (List.mem_of_mem_take (List.mem_of_mem_filter mem)))

theorem vectorAdmitted {limit : Nat} {id : String} (found : id ∈ vectorSearch host settings engine request limit db) :
    Admitted host settings request db id := by
  unfold vectorSearch at found
  split at found
  · cases found
  · obtain ⟨pair, mem, rfl⟩ := engine.nearestFrom _ _ _ _ found
    obtain ⟨v, _, inside⟩ := List.mem_flatMap.mp mem
    obtain ⟨row, held, rfl⟩ := List.mem_map.mp inside
    exact admittedRow (List.mem_of_mem_filter held)

-- A fold that keeps what it has or takes the next ends with one of the list.
theorem chosenHeld {α : Type} {step : Option α → α → Option α} (picks : ∀ best a, step best a = some a ∨ step best a = best)
    {rest : List α} {best : Option α} {a : α} (found : rest.foldl step best = some a) : a ∈ rest ∨ best = some a := by
  induction rest generalizing best with
  | nil => exact .inr found
  | cons first rest ih =>
    rcases ih found with later | now
    · exact .inl (List.mem_cons_of_mem _ later)
    · rcases picks best first with taken | kept
      · exact .inl (Option.some.inj (now.symm.trans taken) ▸ List.mem_cons_self)
      · exact .inr (kept ▸ now)

theorem heaviestHeld {hops : List Hop} {hop : Hop} (found : heaviest hops = some hop) : hop ∈ hops := by
  unfold heaviest at found
  refine (chosenHeld (fun best next => ?_) found).resolve_right (fun empty => by cases empty)
  cases best with
  | none => exact .inl rfl
  | some kept =>
    simp only
    split
    · exact .inl rfl
    · exact .inr rfl

theorem hopAdmitted {frontier : List String} {hop : Hop} (found : hop ∈ hopsFrom host settings request frontier db) :
    Admitted host settings request db hop.id := by
  have reached : ∀ hops : List Hop, hop ∈ (heaviest (hops.filter (fun hop => frontier.contains hop.parent &&
      (admitted host settings request db).any (fun row => row.id = hop.id)))).toList →
      Admitted host settings request db hop.id := by
    intro hops mem
    have kept := (List.mem_filter.mp (heaviestHeld (Option.mem_toList.mp mem))).2
    rw [Bool.and_eq_true, List.any_eq_true] at kept
    obtain ⟨row, held, same⟩ := kept.2
    exact of_decide_eq_true same ▸ admittedRow held
  rcases List.mem_append.mp found with forward | backward
  · exact reached _ forward
  · exact reached _ backward

theorem raisedKey {scores : List (String × ℚ)} {id key : String} {score : ℚ}
    (mem : key ∈ (raiseScore scores id score).map Prod.fst) : key ∈ scores.map Prod.fst ∨ key = id := by
  unfold raiseScore at mem
  split at mem
  · rw [List.map_append, List.mem_append] at mem
    rcases mem with old | new
    · obtain ⟨entry, held, rfl⟩ := List.mem_map.mp old
      exact .inl (List.mem_map_of_mem (List.mem_of_mem_filter held))
    · exact .inr (by simpa using new)
  · exact .inl mem

theorem followKey {depth : Nat} {from_ : Spread} {hops : List Hop} {key : String} : ∀ {next : Spread},
    key ∈ (hops.foldl (followHop depth from_) next).graph.map Prod.fst →
      key ∈ next.graph.map Prod.fst ∨ ∃ hop ∈ hops, key = hop.id := by
  induction hops with
  | nil => exact fun mem => .inl mem
  | cons hop rest ih =>
    intro next mem
    rcases ih mem with old | ⟨later, held, same⟩
    · unfold followHop at old
      split at old
      · exact .inl old
      · rcases raisedKey old with kept | new
        · exact .inl kept
        · exact .inr ⟨hop, List.mem_cons_self, new⟩
    · exact .inr ⟨later, List.mem_cons_of_mem _ held, same⟩

theorem spreadAdmitted {fuel : Nat} : ∀ {depth : Nat} {now : Spread},
    (∀ key ∈ now.graph.map Prod.fst, Admitted host settings request db key) →
      ∀ key ∈ (spread host settings request db fuel depth now).graph.map Prod.fst,
        Admitted host settings request db key := by
  induction fuel with
  | zero => exact fun kept => kept
  | succ fuel ih =>
    intro depth now kept
    unfold spread
    split
    · exact kept
    · refine ih (fun key mem => ?_)
      rcases followKey mem with old | ⟨hop, found, rfl⟩
      · exact kept key old
      · exact hopAdmitted found

theorem linksAdmitted {topIds : List String} {id : String} (found : id ∈ expandByLinks host settings topIds request db) :
    Admitted host settings request db id :=
  spreadAdmitted (by simp) id found

-- Every prompt and response of an interaction is one of the rows it was read from.
theorem followTurnHeld {turns : List Turn} {rows : List Observation}
    (within : ∀ turn ∈ turns, turn.row ∈ rows) : ∀ {state : Option Observation × Option (Observation × Observation)},
    (∀ row ∈ state.1, row ∈ rows) → (∀ pair ∈ state.2, pair.1 ∈ rows ∧ pair.2 ∈ rows) →
      (∀ row ∈ (turns.foldl (followTurn host engine) state).1, row ∈ rows) ∧
        ∀ pair ∈ (turns.foldl (followTurn host engine) state).2, pair.1 ∈ rows ∧ pair.2 ∈ rows := by
  induction turns with
  | nil => exact fun prompt done => ⟨prompt, done⟩
  | cons turn rest ih =>
    intro state prompt done
    have here : turn.row ∈ rows := within turn List.mem_cons_self
    rw [List.foldl_cons]
    refine ih (fun later mem => within later (List.mem_cons_of_mem _ mem)) ?_ ?_
    · unfold followTurn
      split
      · split
        · exact prompt
        · simpa using here
      · split
        · exact prompt
        · split
          · exact prompt
          · split
            · exact prompt
            · exact prompt
    · unfold followTurn
      split
      · split
        · exact done
        · exact done
      · split
        · exact done
        · split
          · exact done
          · rename_i asked held
            split
            · exact done
            · intro pair mem
              obtain rfl := Option.mem_some_iff.mp mem
              exact ⟨prompt asked held, here⟩

def Interaction.rows (interaction : Interaction) : List Observation :=
  interaction.prompt :: interaction.response.toList

theorem sessionHeld {turns : List Turn} {interaction : Interaction}
    (found : sessionInteraction host engine turns = some interaction) :
    ∀ row ∈ interaction.rows, ∃ turn ∈ turns, turn.row = row := by
  unfold sessionInteraction at found
  simp only at found
  have within : ∀ turn ∈ Tables.orderBy (fun a b : Turn => ((engine.collate a.row.createdAt b.row.createdAt).then
      (engine.collate a.row.id b.row.id)) ≠ .gt) turns, turn.row ∈ turns.map Turn.row :=
    fun turn mem => List.mem_map_of_mem ((Tables.memOrderBy _).mp mem)
  have held := @followTurnHeld host engine _ _ within (none, none) (by simp) (by simp)
  intro row mem
  split at found
  · rename_i prompt response same
    rw [same] at held
    obtain rfl := Option.some.inj found
    have both := held.2 (prompt, response) rfl
    simp only [Interaction.rows, Option.toList_some, List.mem_cons, List.not_mem_nil, or_false] at mem
    rcases mem with rfl | rfl
    · exact List.mem_map.mp both.1
    · exact List.mem_map.mp both.2
  · rename_i prompt same
    rw [same] at held
    obtain rfl := Option.some.inj found
    simp only [Interaction.rows, Option.toList_none, List.mem_cons, List.not_mem_nil, or_false] at mem
    rw [mem]
    exact List.mem_map.mp (held.1 prompt rfl)
  · cases found

theorem selectedHeld {turns : List Turn} {interaction : Interaction}
    (found : selectLatestInteractionContext host engine turns = some interaction) :
    ∀ row ∈ interaction.rows, ∃ turn ∈ turns, turn.row = row := by
  intro row mem
  have context := (Tables.memOrderBy _).mp (List.mem_of_head? found)
  obtain ⟨session, _, made⟩ := List.mem_filterMap.mp context
  obtain ⟨turn, held, same⟩ := sessionHeld made row mem
  exact ⟨turn, List.mem_of_mem_filter held, same⟩

theorem turnRow {row : Observation} {turn : Turn} (made : turnOf db row = some turn) : turn.row = row := by
  unfold turnOf at made
  split at made
  · cases made
  · split at made
    · exact congrArg Turn.row (Option.some.inj made).symm
    · cases made

theorem latestHeld {original : SearchRequest} {id : String}
    (found : id ∈ latestIds host settings engine original request db) :
    (truthy original.asOf = none ∧ isLatestInteractionIntent original.query = true) ∧
      ∃ row ∈ db.observations, row.id = id ∧
        latestFilter host settings (request.projectMembers.getD []) request row = true := by
  unfold latestIds at found
  split at found
  · cases found
  rename_i wanted
  rw [not_or, Bool.not_eq_true, Option.isSome_eq_false_iff, Option.isNone_iff_eq_none, Bool.not_eq_false] at wanted
  refine ⟨wanted, ?_⟩
  split at found
  · cases found
  rename_i interaction latest
  unfold getLatestInteractionContext at latest
  split at latest
  · cases latest
  have within : ∃ row ∈ interaction.rows, row.id = id := by
    have mem := List.mem_of_mem_filter found
    rw [List.mem_cons] at mem
    rcases mem with rfl | response
    · exact ⟨interaction.prompt, List.mem_cons_self, rfl⟩
    · obtain ⟨row, given, rfl⟩ := Option.mem_map.mp (Option.mem_toList.mp response)
      exact ⟨row, List.mem_cons_of_mem _ (Option.mem_toList.mpr given), rfl⟩
  obtain ⟨row, mem, rfl⟩ := within
  obtain ⟨turn, asked, same⟩ := selectedHeld latest row mem
  unfold queryLatestInteractionObservations interactionRows at asked
  obtain ⟨other, kept, made⟩ := List.mem_filterMap.mp ((Tables.memOrderBy _).mp (List.mem_of_mem_take asked))
  rw [turnRow made] at same
  subst same
  exact ⟨other, List.mem_of_mem_filter kept, rfl, (List.mem_filter.mp kept).2⟩

theorem byAnchorHeld {descending : Bool} {rows : List Observation} {row : Observation} :
    row ∈ byAnchor descending rows ↔ row ∈ rows := by
  unfold byAnchor
  split
  · exact Tables.memOrderBy _
  · exact Tables.memOrderBy _

theorem aroundHeld {anchor : Anchor} {limit : Nat} {center row : Observation} {rows : List Observation}
    (mem : row ∈ aroundAnchor host engine request anchor limit center rows) : row ∈ rows ∧ row.id ≠ center.id := by
  unfold aroundAnchor at mem
  extract_lets time others distance side near score later relevant rest at mem
  have nearby : row ∈ near := by
    rcases List.mem_append.mp (List.mem_of_mem_take mem) with front | back
    · exact List.mem_of_mem_filter ((Tables.memOrderBy _).mp front)
    · exact List.mem_of_mem_filter ((Tables.memOrderBy _).mp back)
  have sided : row ∈ others := by
    have inside := List.mem_of_mem_take nearby
    unfold side at inside
    split at inside
    · exact List.mem_of_mem_filter (byAnchorHeld.mp inside)
    · exact List.mem_of_mem_filter (byAnchorHeld.mp inside)
    · exact List.mem_of_mem_filter ((Tables.memOrderBy _).mp inside)
  have kept := List.mem_filter.mp sided
  exact ⟨kept.1, by simpa using kept.2⟩

theorem anchoredHeld {anchor : Anchor} {limit : Nat} {rows : List Observation} {row : Observation}
    (found : temporalAnchorSearch host settings engine request anchor limit db = some rows) (mem : row ∈ rows) :
    row ∈ db.observations ∧ ∃ members, anchorMembers settings request = .ok members ∧
      anchorFilter members request row = true := by
  unfold temporalAnchorSearch at found
  split at found
  · cases found
  rename_i members resolved
  extract_lets asked hits kept at found
  have within : row ∈ kept := by
    split at found
    · obtain rfl := Option.some.inj found
      exact byAnchorHeld.mp (List.mem_of_mem_take mem)
    · split at found
      · cases found
      · obtain rfl := Option.some.inj found
        exact (aroundHeld mem).1
  exact ⟨List.mem_of_mem_filter within, members, resolved, (List.mem_filter.mp within).2⟩

end
end HarnessMem.Search
