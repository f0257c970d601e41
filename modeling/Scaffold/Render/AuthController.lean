import Scaffold.Render.Page
import Scaffold.Schema

/-!
# The controller of the log-in

Two controllers that do not depend on the schema: one hands out tokens, one opens a session.
-/

namespace Scaffold.Render
set_option autoImplicit false

/-- The controller that hands out tokens. -/
def tokenController : List String :=
  ["<?php", "", "namespace App\\Http\\Controllers;", "", "use App\\Models\\User;",
   "use Illuminate\\Http\\JsonResponse;", "use Illuminate\\Http\\Request;",
   "use Illuminate\\Support\\Facades\\Hash;", "use Illuminate\\Validation\\ValidationException;",
   "", "class AuthController extends Controller", "\x7b",
   "    public function register(Request $request): JsonResponse", "    \x7b",
   "        $request->validate([", "            'name' => 'required|string|max:255',",
   "            'email' => 'required|string|email|max:255|unique:users',",
   "            'password' => 'required|string|min:8|confirmed',", "        ]);", "",
   "        $user = User::create([", "            'name' => $request->name,",
   "            'email' => $request->email,",
   "            'password' => Hash::make($request->password),", "        ]);", "",
   "        $token = $user->createToken('auth-token')->plainTextToken;", "",
   "        return response()->json([", "            'user' => $user,",
   "            'token' => $token,", "            'token_type' => 'Bearer',", "        ], 201);",
   "    \x7d", "", "    public function login(Request $request): JsonResponse", "    \x7b",
   "        $request->validate([", "            'email' => 'required|email',",
   "            'password' => 'required',", "        ]);", "",
   "        $user = User::where('email', $request->email)->first();", "",
   "        if (! $user || ! Hash::check($request->password, $user->password)) \x7b",
   "            throw ValidationException::withMessages([",
   "                'email' => ['The provided credentials are incorrect.'],", "            ]);",
   "        \x7d", "", "        $token = $user->createToken('auth-token')->plainTextToken;", "",
   "        return response()->json([", "            'user' => $user,",
   "            'token' => $token,", "            'token_type' => 'Bearer',", "        ]);",
   "    \x7d", "", "    public function logout(Request $request): JsonResponse", "    \x7b",
   "        $request->user()->currentAccessToken()->delete();", "",
   "        return response()->json(['message' => 'Successfully logged out']);", "    \x7d", "",
   "    public function user(Request $request): JsonResponse", "    \x7b",
   "        return response()->json($request->user());", "    \x7d", "\x7d"]

/-- The controller that opens a session. -/
def sessionController : List String :=
  ["<?php", "", "namespace App\\Http\\Controllers;", "", "use Illuminate\\Http\\JsonResponse;",
   "use Illuminate\\Http\\Request;", "use Illuminate\\Support\\Facades\\Auth;", "",
   "class AuthController extends Controller", "\x7b",
   "    public function login(Request $request): JsonResponse", "    \x7b",
   "        $credentials = $request->validate([", "            'email' => 'required|email',",
   "            'password' => 'required',", "        ]);", "",
   "        if (Auth::attempt($credentials)) \x7b",
   "            $request->session()->regenerate();", "", "            return response()->json([",
   "                'user' => Auth::user(),", "                'message' => 'Login successful',",
   "            ]);", "        \x7d", "", "        return response()->json([",
   "            'message' => 'The provided credentials do not match our records.',",
   "        ], 401);", "    \x7d", "", "    public function logout(Request $request): JsonResponse",
   "    \x7b", "        Auth::logout();", "        $request->session()->invalidate();",
   "        $request->session()->regenerateToken();", "",
   "        return response()->json(['message' => 'Successfully logged out']);", "    \x7d", "",
   "    public function user(Request $request): JsonResponse", "    \x7b",
   "        return response()->json($request->user());", "    \x7d", "\x7d"]

/-- The controller for the way in which users prove who they are. -/
def authControllerPage (s : Schema) : String :=
  page (if s.auth.usesTokens then tokenController else sessionController)

end Scaffold.Render
