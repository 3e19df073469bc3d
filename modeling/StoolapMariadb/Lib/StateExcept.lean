import Mathlib.Logic.Basic

namespace StateExcept

/-! Computations with a state and errors: what a run that succeeds went
through, and properties of what it returns. -/

variable {σ ε α β : Type} {x : StateT σ (Except ε) α} {f : α → StateT σ (Except ε) β}

theorem bind_ok {s last : σ} {b : β} :
    (x >>= f) s = .ok (b, last) ↔ ∃ a middle, x s = .ok (a, middle) ∧ f a middle = .ok (b, last) := by
  change (x s >>= fun result => f result.1 result.2) = _ ↔ _
  cases ran : x s with
  | error why => simp [bind, Except.bind]
  | ok result =>
      obtain ⟨a, middle⟩ := result
      simp only [bind, Except.bind, Except.ok.injEq, Prod.mk.injEq]
      constructor
      · exact fun rest => ⟨a, middle, ⟨rfl, rfl⟩, rest⟩
      · rintro ⟨other, state, ⟨rfl, rfl⟩, rest⟩
        exact rest

theorem pure_ok {s last : σ} {a b : α} :
    (pure a : StateT σ (Except ε) α) s = .ok (b, last) ↔ a = b ∧ s = last := by
  change Except.ok (a, s) = _ ↔ _
  simp

theorem map_ok {g : α → β} {s last : σ} {b : β} :
    (g <$> x) s = .ok (b, last) ↔ ∃ a, x s = .ok (a, last) ∧ g a = b := by
  change (x s >>= fun result => Except.ok (g result.1, result.2)) = _ ↔ _
  cases ran : x s with
  | error why => simp [bind, Except.bind]
  | ok result =>
      obtain ⟨a, middle⟩ := result
      simp only [bind, Except.bind, Except.ok.injEq, Prod.mk.injEq]
      constructor
      · rintro ⟨value, rfl⟩
        exact ⟨a, ⟨rfl, rfl⟩, value⟩
      · rintro ⟨other, ⟨rfl, rfl⟩, value⟩
        exact ⟨value, rfl⟩

theorem throw_ok {s last : σ} {why : ε} {a : α} :
    (throw why : StateT σ (Except ε) α) s = .ok (a, last) ↔ False := by
  change Except.error why = _ ↔ _
  simp

theorem get_ok {s last a : σ} : (get : StateT σ (Except ε) σ) s = .ok (a, last) ↔ s = a ∧ s = last := by
  change Except.ok (s, s) = _ ↔ _
  simp

theorem modify_ok {g : σ → σ} {s last : σ} {u : PUnit} :
    (modify g : StateT σ (Except ε) PUnit) s = .ok (u, last) ↔ g s = last := by
  change Except.ok (PUnit.unit, g s) = _ ↔ _
  simp

/-- Whatever a run that succeeds returns has the property. -/
def Returns (x : StateT σ (Except ε) α) (post : α → Prop) : Prop :=
  ∀ s a last, x s = .ok (a, last) → post a

variable {post : α → Prop} {next : β → Prop}

theorem Returns.pure {a : α} (holds : post a) : Returns (Pure.pure a : StateT σ (Except ε) α) post := by
  intro s b last ran
  obtain ⟨rfl, -⟩ := pure_ok.mp ran
  exact holds

theorem Returns.throw {why : ε} : Returns (MonadExcept.throw why : StateT σ (Except ε) α) post := by
  intro s a last ran
  exact (throw_ok.mp ran).elim

theorem Returns.bind (first : Returns x post) (rest : ∀ a, post a → Returns (f a) next) :
    Returns (x >>= f) next := by
  intro s b last ran
  obtain ⟨a, middle, xRan, fRan⟩ := bind_ok.mp ran
  exact rest a (first s a middle xRan) middle b last fRan

theorem Returns.any : Returns x fun _ => True := fun _ _ _ _ => trivial

/-- A step whose result does not matter. -/
theorem Returns.skip (rest : ∀ a, Returns (f a) next) : Returns (x >>= f) next :=
  Returns.any.bind fun a _ => rest a

theorem Returns.ite {c : Prop} [Decidable c] {y : StateT σ (Except ε) α} (whenTrue : c → Returns x post)
    (whenFalse : ¬ c → Returns y post) : Returns (if c then x else y) post := by
  split
  · exact whenTrue ‹c›
  · exact whenFalse ‹¬ c›

theorem Returns.imp {other : α → Prop} (holds : Returns x post) (weaker : ∀ a, post a → other a) :
    Returns x other :=
  fun s a last ran => weaker a (holds s a last ran)

theorem Returns.map {g : α → β} (holds : Returns x post) (step : ∀ a, post a → next (g a)) :
    Returns (g <$> x) next := by
  intro s b last ran
  obtain ⟨a, xRan, rfl⟩ := map_ok.mp ran
  exact step a (holds s a last xRan)

/-- A run that starts in a state of the invariant and succeeds keeps it, and
what it returns has the property. -/
def Yields (inv : σ → Prop) (x : StateT σ (Except ε) α) (post : α → Prop) : Prop :=
  ∀ s a last, inv s → x s = .ok (a, last) → inv last ∧ post a

variable {inv : σ → Prop}

theorem Yields.pure {a : α} (holds : post a) : Yields inv (Pure.pure a : StateT σ (Except ε) α) post := by
  intro s b last start ran
  obtain ⟨rfl, rfl⟩ := pure_ok.mp ran
  exact ⟨start, holds⟩

theorem Yields.throw {why : ε} : Yields inv (MonadExcept.throw why : StateT σ (Except ε) α) post := by
  intro s a last _ ran
  exact (throw_ok.mp ran).elim

theorem Yields.bind (first : Yields inv x post) (rest : ∀ a, post a → Yields inv (f a) next) :
    Yields inv (x >>= f) next := by
  intro s b last start ran
  obtain ⟨a, middle, xRan, fRan⟩ := bind_ok.mp ran
  obtain ⟨kept, holds⟩ := first s a middle start xRan
  exact rest a holds middle b last kept fRan

/-- A step that reads the state: what follows may use the invariant. -/
theorem Yields.read {g : σ → StateT σ (Except ε) β} (rest : ∀ s, inv s → Yields inv (g s) next) :
    Yields inv (get >>= g) next := by
  intro s b last start ran
  obtain ⟨a, middle, got, gRan⟩ := bind_ok.mp ran
  obtain ⟨rfl, rfl⟩ := get_ok.mp got
  exact rest s start s b last start gRan

theorem Yields.change {g : σ → σ} (kept : ∀ s, inv s → inv (g s)) :
    Yields inv (modify g : StateT σ (Except ε) PUnit) fun _ => True := by
  intro s u last start ran
  rw [← modify_ok.mp ran]
  exact ⟨kept s start, trivial⟩

theorem Yields.ite {c : Prop} [Decidable c] {y : StateT σ (Except ε) α} (whenTrue : c → Yields inv x post)
    (whenFalse : ¬ c → Yields inv y post) : Yields inv (if c then x else y) post := by
  split
  · exact whenTrue ‹c›
  · exact whenFalse ‹¬ c›

theorem Yields.imp {other : α → Prop} (holds : Yields inv x post) (weaker : ∀ a, post a → other a) :
    Yields inv x other :=
  fun s a last start ran => (holds s a last start ran).imp_right (weaker a)

theorem Yields.map {g : α → β} (holds : Yields inv x post) (step : ∀ a, post a → next (g a)) :
    Yields inv (g <$> x) next := by
  intro s b last start ran
  obtain ⟨a, xRan, rfl⟩ := map_ok.mp ran
  exact (holds s a last start xRan).imp_right (step a)

/-- That it was returned by such a run is a property too. -/
theorem Yields.ran (holds : Yields inv x post) :
    Yields inv x fun a => (∃ s last, inv s ∧ x s = .ok (a, last)) ∧ post a :=
  fun s a last start ran => (holds s a last start ran).imp_right fun told => ⟨⟨s, last, start, ran⟩, told⟩

/-- What a run tells whatever it returns. -/
def Keeps (inv : σ → Prop) (x : StateT σ (Except ε) α) (post : Prop) : Prop :=
  ∀ s a last, inv s → x s = .ok (a, last) → inv last ∧ post

variable {told after : Prop}

theorem Keeps.pure {a : α} (holds : told) : Keeps inv (Pure.pure a : StateT σ (Except ε) α) told :=
  @Yields.pure _ _ _ (fun _ => told) _ _ holds

theorem Keeps.throw {why : ε} : Keeps inv (MonadExcept.throw why : StateT σ (Except ε) α) told :=
  @Yields.throw _ _ _ (fun _ => told) _ _

theorem Keeps.bind (first : Keeps inv x told) (rest : ∀ a, told → Keeps inv (f a) after) :
    Keeps inv (x >>= f) after :=
  @Yields.bind _ _ _ _ _ _ (fun _ => told) (fun _ => after) _ first rest

/-- A step that reads the state: what follows may use the invariant. -/
theorem Keeps.read {g : σ → StateT σ (Except ε) β} (rest : ∀ s, inv s → Keeps inv (g s) after) :
    Keeps inv (get >>= g) after :=
  @Yields.read _ _ _ (fun _ => after) _ _ rest

theorem Keeps.change {g : σ → σ} (kept : ∀ s, inv s → inv (g s)) :
    Keeps inv (modify g : StateT σ (Except ε) PUnit) True :=
  Yields.change kept

theorem Keeps.ite {c : Prop} [Decidable c] {y : StateT σ (Except ε) α} (whenTrue : c → Keeps inv x told)
    (whenFalse : ¬ c → Keeps inv y told) : Keeps inv (if c then x else y) told :=
  @Yields.ite _ _ _ _ (fun _ => told) _ _ _ _ whenTrue whenFalse

theorem Keeps.imp (holds : Keeps inv x told) (weaker : told → after) : Keeps inv x after :=
  @Yields.imp _ _ _ _ (fun _ => told) _ (fun _ => after) holds fun _ => weaker

/-- A run that succeeds keeps the invariant, whatever it returns. -/
def Steady (inv : σ → Prop) (x : StateT σ (Except ε) α) : Prop := ∀ s a last, inv s → x s = .ok (a, last) → inv last

theorem Yields.steady (holds : Yields inv x post) : Steady inv x := fun s a last start ran => (holds s a last start ran).1

theorem Steady.yields (steady : Steady inv x) : Yields inv x fun _ => True :=
  fun s a last start ran => ⟨steady s a last start ran, trivial⟩

theorem Steady.pure {a : α} : Steady inv (Pure.pure a : StateT σ (Except ε) α) :=
  (@Yields.pure _ _ _ (fun _ => True) _ _ trivial).steady

theorem Steady.throw {why : ε} : Steady inv (MonadExcept.throw why : StateT σ (Except ε) α) :=
  (@Yields.throw _ _ _ (fun _ => True) _ _).steady

/-- What is told of the result serves the rest of the run. -/
theorem Steady.follow (first : Yields inv x post) (rest : ∀ a, post a → Steady inv (f a)) : Steady inv (x >>= f) :=
  (first.bind fun a told => (rest a told).yields).steady

theorem Steady.bind (first : Steady inv x) (rest : ∀ a, Steady inv (f a)) : Steady inv (x >>= f) :=
  .follow first.yields fun a _ => rest a

theorem Steady.read {g : σ → StateT σ (Except ε) β} (rest : ∀ s, Steady inv (g s)) : Steady inv (get >>= g) :=
  (Yields.read fun s _ => (rest s).yields).steady

theorem Steady.change {g : σ → σ} (kept : ∀ s, inv s → inv (g s)) :
    Steady inv (modify g : StateT σ (Except ε) PUnit) :=
  (Yields.change kept).steady

theorem Steady.ite {c : Prop} [Decidable c] {y : StateT σ (Except ε) α} (whenTrue : Steady inv x)
    (whenFalse : Steady inv y) : Steady inv (if c then x else y) := by
  split
  · exact whenTrue
  · exact whenFalse

theorem Steady.map {g : α → β} (holds : Steady inv x) : Steady inv (g <$> x) :=
  (@Yields.map _ _ _ _ _ _ (fun _ => True) _ _ holds.yields fun _ _ => trivial).steady

end StateExcept
