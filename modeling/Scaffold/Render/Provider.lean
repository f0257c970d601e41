import Scaffold.Render.Page
import Scaffold.Schema

/-!
# Providers

The two classes by which the framework learns of the policies and the observers.
-/

namespace Scaffold.Render
set_option autoImplicit false

/-- The provider that ties models to their policies. -/
def authProviderPage (s : Schema) : String :=
  let classes := (s.entities.values.filter (·.hasPolicies)).map (·.className)
  page (opening "App\\Providers"
      ("Illuminate\\Foundation\\Support\\Providers\\AuthServiceProvider as ServiceProvider" ::
        classes.flatMap fun cls => [s!"App\\Models\\{cls}", s!"App\\Policies\\{cls}Policy"]) ++
    ["", "class AuthServiceProvider extends ServiceProvider", "\x7b", "    /**",
      "     * The model to policy mappings for the application.", "     *",
      "     * @var array<class-string, class-string>", "     */", "    protected $policies = ["] ++
    (classes.map fun cls => s!"        {cls}::class => {cls}Policy::class,") ++ ["    ];", ""] ++
    method "public function boot(): void" ["        $this->registerPolicies();"] ++ ["\x7d"])

/-- The provider that sets observers on models. -/
def observerProviderPage (s : Schema) : String :=
  let classes := (s.entities.values.filter (·.hasObservers)).map (·.className)
  page (opening "App\\Providers"
      ("Illuminate\\Support\\ServiceProvider" ::
        classes.flatMap fun cls => [s!"App\\Models\\{cls}", s!"App\\Observers\\{cls}Observer"]) ++
    ["", "class ObserverServiceProvider extends ServiceProvider", "\x7b"] ++
    method "public function register(): void" ["        //"] ++ [""] ++
    method "public function boot(): void"
      (classes.map fun cls => s!"        {cls}::observe({cls}Observer::class);") ++ ["\x7d"])

end Scaffold.Render
