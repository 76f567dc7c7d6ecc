import JavaCallGraph.Library.Spec

/-!
# The built-in library

The part of the Java class library and of common frameworks that every analysis knows.
-/

namespace JavaCallGraph.Library

def builtinTypes : List (String × LibraryType) := [
  ("java.lang.Object", {
    methods := ["Object()", "boolean equals(java.lang.Object)", "int hashCode()",
      "java.lang.String toString()", "java.lang.Class<?> getClass()", "void notify()",
      "void notifyAll()", "void wait()"] }),
  ("java.lang.CharSequence", {
    kind := .interface
    methods := ["int length()", "char charAt(int)", "java.lang.String toString()"] }),
  ("java.lang.Comparable", {
    kind := .interface
    typeParams := ["T"]
    methods := ["int compareTo(T)"] }),
  ("java.lang.String", {
    interfaces := ["java.lang.CharSequence", "java.lang.Comparable<java.lang.String>"]
    methods := ["String()", "String(java.lang.String)", "int length()", "char charAt(int)",
      "boolean isEmpty()", "boolean equals(java.lang.Object)", "int hashCode()",
      "java.lang.String toString()", "int compareTo(java.lang.String)",
      "java.lang.String substring(int)", "java.lang.String substring(int, int)",
      "java.lang.String trim()", "java.lang.String toLowerCase()",
      "java.lang.String toUpperCase()", "boolean startsWith(java.lang.String)",
      "boolean endsWith(java.lang.String)", "boolean contains(java.lang.CharSequence)",
      "int indexOf(java.lang.String)",
      "java.lang.String replace(java.lang.CharSequence, java.lang.CharSequence)",
      "java.lang.String[] split(java.lang.String)",
      "static java.lang.String valueOf(java.lang.Object)", "static java.lang.String valueOf(int)",
      "static java.lang.String valueOf(long)", "static java.lang.String valueOf(boolean)",
      "static java.lang.String format(java.lang.String, java.lang.Object...)",
      "static java.lang.String join(java.lang.CharSequence, java.lang.CharSequence...)"] }),
  ("java.lang.StringBuilder", {
    interfaces := ["java.lang.CharSequence"]
    methods := ["StringBuilder()", "StringBuilder(java.lang.String)",
      "java.lang.StringBuilder append(java.lang.String)",
      "java.lang.StringBuilder append(java.lang.Object)", "java.lang.StringBuilder append(int)",
      "java.lang.StringBuilder append(long)", "java.lang.StringBuilder append(char)",
      "java.lang.StringBuilder append(boolean)", "java.lang.StringBuilder append(double)",
      "int length()", "char charAt(int)", "java.lang.String toString()"] }),
  ("java.lang.Number", {
    isAbstract := true
    methods := ["Number()", "abstract int intValue()", "abstract long longValue()",
      "abstract double doubleValue()"] }),
  ("java.lang.Integer", {
    superclass := some "java.lang.Number"
    interfaces := ["java.lang.Comparable<java.lang.Integer>"]
    methods := ["Integer(int)", "int intValue()", "long longValue()", "double doubleValue()",
      "int compareTo(java.lang.Integer)", "static java.lang.Integer valueOf(int)",
      "static int parseInt(java.lang.String)", "static java.lang.String toString(int)"] }),
  ("java.lang.Long", {
    superclass := some "java.lang.Number"
    interfaces := ["java.lang.Comparable<java.lang.Long>"]
    methods := ["Long(long)", "int intValue()", "long longValue()", "double doubleValue()",
      "int compareTo(java.lang.Long)", "static java.lang.Long valueOf(long)",
      "static long parseLong(java.lang.String)"] }),
  ("java.lang.Double", {
    superclass := some "java.lang.Number"
    interfaces := ["java.lang.Comparable<java.lang.Double>"]
    methods := ["Double(double)", "int intValue()", "long longValue()", "double doubleValue()",
      "int compareTo(java.lang.Double)", "static java.lang.Double valueOf(double)",
      "static double parseDouble(java.lang.String)"] }),
  ("java.lang.Float", {
    superclass := some "java.lang.Number"
    methods := ["int intValue()", "long longValue()", "double doubleValue()"] }),
  ("java.lang.Short", {
    superclass := some "java.lang.Number"
    methods := ["int intValue()", "long longValue()", "double doubleValue()"] }),
  ("java.lang.Byte", {
    superclass := some "java.lang.Number"
    methods := ["int intValue()", "long longValue()", "double doubleValue()"] }),
  ("java.lang.Boolean", {
    methods := ["Boolean(boolean)", "boolean booleanValue()",
      "static java.lang.Boolean valueOf(boolean)",
      "static boolean parseBoolean(java.lang.String)"] }),
  ("java.lang.Character", {
    methods := ["char charValue()", "static java.lang.Character valueOf(char)",
      "static boolean isDigit(char)", "static boolean isLetter(char)"] }),
  ("java.lang.Math", {
    methods := ["static int max(int, int)", "static int min(int, int)", "static int abs(int)",
      "static double sqrt(double)", "static double random()"] }),
  ("java.lang.System", {
    fields := ["static java.io.PrintStream out", "static java.io.PrintStream err"]
    methods := ["static long currentTimeMillis()", "static long nanoTime()",
      "static void exit(int)", "static java.lang.String getProperty(java.lang.String)"] }),
  ("java.io.PrintStream", {
    methods := ["void println()", "void println(java.lang.String)",
      "void println(java.lang.Object)", "void println(int)", "void println(long)",
      "void println(boolean)", "void print(java.lang.String)", "void print(java.lang.Object)",
      "java.io.PrintStream printf(java.lang.String, java.lang.Object...)"] }),
  ("java.io.PrintWriter", {
    methods := ["void println(java.lang.String)", "void println(java.lang.Object)",
      "void print(java.lang.String)", "void flush()", "void close()"] }),
  ("java.lang.Enum", {
    isAbstract := true
    typeParams := ["E extends java.lang.Enum<E>"]
    interfaces := ["java.lang.Comparable<E>"]
    methods := ["java.lang.String name()", "int ordinal()", "java.lang.String toString()",
      "int compareTo(E)"] }),
  ("java.lang.Record", {
    isAbstract := true
    methods := ["Record()"] }),
  ("java.lang.Class", {
    typeParams := ["T"]
    methods := ["java.lang.String getName()", "java.lang.String getSimpleName()"] }),
  ("java.lang.Iterable", {
    kind := .interface
    typeParams := ["T"]
    methods := ["java.util.Iterator<T> iterator()",
      "default void forEach(java.util.function.Consumer<? super T>)"] }),
  ("java.lang.AutoCloseable", {
    kind := .interface
    methods := ["void close()"] }),
  ("java.util.Iterator", {
    kind := .interface
    typeParams := ["E"]
    methods := ["boolean hasNext()", "E next()", "default void remove()"] }),
  ("java.util.Collection", {
    kind := .interface
    typeParams := ["E"]
    interfaces := ["java.lang.Iterable<E>"]
    methods := ["int size()", "boolean isEmpty()", "boolean add(E)",
      "boolean addAll(java.util.Collection<? extends E>)", "boolean contains(java.lang.Object)",
      "boolean remove(java.lang.Object)", "void clear()"] }),
  ("java.util.List", {
    kind := .interface
    typeParams := ["E"]
    interfaces := ["java.util.Collection<E>"]
    methods := ["E get(int)", "E set(int, E)", "void add(int, E)", "E remove(int)",
      "int indexOf(java.lang.Object)", "static <T> java.util.List<T> of()",
      "static <T> java.util.List<T> of(T...)"] }),
  ("java.util.ArrayList", {
    typeParams := ["E"]
    interfaces := ["java.util.List<E>"]
    methods := ["ArrayList()", "ArrayList(int)", "ArrayList(java.util.Collection<? extends E>)",
      "int size()", "boolean isEmpty()", "boolean add(E)", "void add(int, E)",
      "boolean addAll(java.util.Collection<? extends E>)", "E get(int)", "E set(int, E)",
      "E remove(int)", "boolean remove(java.lang.Object)", "boolean contains(java.lang.Object)",
      "int indexOf(java.lang.Object)", "java.util.Iterator<E> iterator()", "void clear()"] }),
  ("java.util.Set", {
    kind := .interface
    typeParams := ["E"]
    interfaces := ["java.util.Collection<E>"]
    methods := [] }),
  ("java.util.HashSet", {
    typeParams := ["E"]
    interfaces := ["java.util.Set<E>"]
    methods := ["HashSet()", "HashSet(java.util.Collection<? extends E>)", "int size()",
      "boolean isEmpty()", "boolean add(E)", "boolean remove(java.lang.Object)",
      "boolean contains(java.lang.Object)", "java.util.Iterator<E> iterator()", "void clear()"] }),
  ("java.util.Map", {
    kind := .interface
    typeParams := ["K", "V"]
    methods := ["V get(java.lang.Object)", "V put(K, V)", "V remove(java.lang.Object)",
      "boolean containsKey(java.lang.Object)", "int size()", "boolean isEmpty()",
      "java.util.Set<K> keySet()", "java.util.Collection<V> values()", "void clear()",
      "default V getOrDefault(java.lang.Object, V)",
      "default V computeIfAbsent(K, java.util.function.Function<? super K, ? extends V>)"] }),
  ("java.util.HashMap", {
    typeParams := ["K", "V"]
    interfaces := ["java.util.Map<K, V>"]
    methods := ["HashMap()", "HashMap(int)", "V get(java.lang.Object)", "V put(K, V)",
      "V remove(java.lang.Object)", "boolean containsKey(java.lang.Object)", "int size()",
      "boolean isEmpty()", "java.util.Set<K> keySet()", "java.util.Collection<V> values()",
      "void clear()"] }),
  ("java.util.Optional", {
    typeParams := ["T"]
    methods := ["static <U> java.util.Optional<U> of(U)",
      "static <U> java.util.Optional<U> ofNullable(U)",
      "static <U> java.util.Optional<U> empty()", "boolean isPresent()", "boolean isEmpty()",
      "T get()", "T orElse(T)",
      "<U> java.util.Optional<U> map(java.util.function.Function<? super T, ? extends U>)",
      "void ifPresent(java.util.function.Consumer<? super T>)"] }),
  ("java.util.Objects", {
    methods := ["static boolean equals(java.lang.Object, java.lang.Object)",
      "static int hash(java.lang.Object...)", "static <T> T requireNonNull(T)",
      "static <T> T requireNonNull(T, java.lang.String)"] }),
  ("java.util.function.Supplier", {
    kind := .interface
    typeParams := ["T"]
    methods := ["T get()"] }),
  ("java.util.function.Function", {
    kind := .interface
    typeParams := ["T", "R"]
    methods := ["R apply(T)",
      "default <V> java.util.function.Function<T, V> " ++
        "andThen(java.util.function.Function<? super R, ? extends V>)"] }),
  ("java.util.function.Consumer", {
    kind := .interface
    typeParams := ["T"]
    methods := ["void accept(T)"] }),
  ("java.util.function.Predicate", {
    kind := .interface
    typeParams := ["T"]
    methods := ["boolean test(T)"] }),
  ("java.util.concurrent.Callable", {
    kind := .interface
    typeParams := ["V"]
    methods := ["V call()"] }),
  ("java.lang.Runnable", {
    kind := .interface
    methods := ["void run()"] }),
  ("java.lang.Thread", {
    interfaces := ["java.lang.Runnable"]
    methods := ["Thread()", "Thread(java.lang.Runnable)",
      "Thread(java.lang.Runnable, java.lang.String)", "void run()", "void start()", "void join()",
      "void interrupt()", "static java.lang.Thread currentThread()", "static void sleep(long)"] }),
  ("java.lang.Throwable", {
    methods := ["Throwable()", "Throwable(java.lang.String)",
      "Throwable(java.lang.String, java.lang.Throwable)", "java.lang.String getMessage()",
      "java.lang.Throwable getCause()", "void printStackTrace()"] }),
  ("java.lang.Exception", {
    superclass := some "java.lang.Throwable"
    methods := ["Exception()", "Exception(java.lang.String)",
      "Exception(java.lang.String, java.lang.Throwable)"] }),
  ("java.lang.RuntimeException", {
    superclass := some "java.lang.Exception"
    methods := ["RuntimeException()", "RuntimeException(java.lang.String)",
      "RuntimeException(java.lang.String, java.lang.Throwable)"] }),
  ("java.lang.IllegalArgumentException", {
    superclass := some "java.lang.RuntimeException"
    methods := ["IllegalArgumentException()", "IllegalArgumentException(java.lang.String)"] }),
  ("java.lang.IllegalStateException", {
    superclass := some "java.lang.RuntimeException"
    methods := ["IllegalStateException()", "IllegalStateException(java.lang.String)"] }),
  ("java.util.EventListener", {
    kind := .interface
    methods := [] }),
  ("java.awt.event.ActionEvent", {
    methods := ["java.lang.String getActionCommand()"] }),
  ("java.awt.event.ActionListener", {
    kind := .interface
    interfaces := ["java.util.EventListener"]
    methods := ["void actionPerformed(java.awt.event.ActionEvent)"] }),
  ("javax.servlet.http.HttpServletRequest", {
    kind := .interface
    methods := ["java.lang.String getParameter(java.lang.String)"] }),
  ("javax.servlet.http.HttpServletResponse", {
    kind := .interface
    methods := ["java.io.PrintWriter getWriter()", "void setStatus(int)"] }),
  ("javax.servlet.http.HttpServlet", {
    isAbstract := true
    methods := ["HttpServlet()", "void init()", "void destroy()",
      "void service(javax.servlet.http.HttpServletRequest, javax.servlet.http.HttpServletResponse)",
      "void doGet(javax.servlet.http.HttpServletRequest, javax.servlet.http.HttpServletResponse)",
      "void doPost(javax.servlet.http.HttpServletRequest, javax.servlet.http.HttpServletResponse)",
      "void doPut(javax.servlet.http.HttpServletRequest, javax.servlet.http.HttpServletResponse)",
      "void doDelete(javax.servlet.http.HttpServletRequest, " ++
        "javax.servlet.http.HttpServletResponse)"] }),
  ("android.os.Bundle", {
    methods := ["Bundle()", "java.lang.String getString(java.lang.String)"] }),
  ("android.app.Activity", {
    methods := ["Activity()", "void onCreate(android.os.Bundle)", "void onStart()",
      "void onResume()", "void onPause()", "void onStop()", "void onDestroy()",
      "void setContentView(int)"] })]

def builtinCallbacks : List (String × List String) := [
  ("java.lang.Runnable", ["run"]),
  ("java.lang.Thread", ["run"]),
  ("java.util.concurrent.Callable", ["call"]),
  ("java.awt.event.ActionListener", ["actionPerformed"]),
  ("javax.servlet.http.HttpServlet", ["init", "destroy", "service", "doGet", "doPost", "doPut",
    "doDelete"]),
  ("android.app.Activity", ["onCreate", "onStart", "onResume", "onPause", "onStop", "onDestroy"])]

def builtin : Library where
  types := .ofList builtinTypes
  callbacks := .ofList (builtinCallbacks.map fun (name, names) =>
    (name, Std.ExtTreeSet.ofList names))

end JavaCallGraph.Library
